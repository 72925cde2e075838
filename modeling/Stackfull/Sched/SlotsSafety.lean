import Stackfull.Sched.Slots
import Mathlib.Data.Finset.Card

/-!
# Wake tokens reach their own task

The place of a task and the threads agree: whoever has a task in hand, claims it, runs it or
releases it has it alone (`Owners`). A slot leads to the incarnation that lives in it, and the
releaser takes the pointer away, then the generation, then waits for the pins (`Stages`). A pinned
thread that found the task, or the generation before it looks for the task, keeps the releaser in
that wait (`Holders`, `Pinned`).
-/

set_option autoImplicit false
set_option relaxedAutoImplicit false
set_option linter.dupNamespace false

namespace Stackfull.Sched.Slots

open Stackfull.Lib
open Stackfull.Sched.Tasks (TaskState)

universe u

variable {θ : Type u}

/-! ### The invariant -/

/-- What a thread's place in the code says about the use of a slot. -/
def Pc.needs (t : θ) : Pc → Option (ℕ × Use θ)
  | .wakeStore _ task => some (task.slot, .live task.incarnation (.hand t))
  | .wakeSchedule _ task => some (task.slot, .live task.incarnation (.hand t))
  | .spawned task => some (task.slot, .live task.incarnation (.hand t))
  | .parkedSwap task => some (task.slot, .live task.incarnation (.hand t))
  | .parkedStore task => some (task.slot, .live task.incarnation (.hand t))
  | .parkedSchedule task => some (task.slot, .live task.incarnation (.hand t))
  | .unpinClaimed _ task => some (task.slot, .live task.incarnation (.claimed t))
  | .shields _ task => some (task.slot, .live task.incarnation (.claimed t))
  | .putBack _ task => some (task.slot, .live task.incarnation (.claimed t))
  | .putStore _ task => some (task.slot, .live task.incarnation (.claimed t))
  | .putSchedule _ task => some (task.slot, .live task.incarnation (.claimed t))
  | .createGeneration slot => some (slot, .taken t)
  | .createStore task => some (task.slot, .building t task.incarnation)
  | .releaseDone task => some (task.slot, .live task.incarnation (.releasing t))
  | .releaseStore task => some (task.slot, .live task.incarnation (.releasing t))
  | .releaseGeneration task => some (task.slot, .live task.incarnation (.releasing t))
  | .releaseWait task => some (task.slot, .live task.incarnation (.releasing t))
  | .releaseFree task => some (task.slot, .live task.incarnation (.releasing t))
  | .releaseSlot slot => some (slot, .gone t)
  | _ => none

/-- The slot a thread is pinned to. -/
def Pc.pinned : Pc → Option ℕ
  | .loadGeneration token => some token.slot
  | .loadTask call => some call.slot
  | .wakeLoad call _ => some call.slot
  | .wakeSwap call _ _ => some call.slot
  | .wakeStore call _ => some call.slot
  | .wakeSchedule call _ => some call.slot
  | .readInfo i _ => some i
  | .claim i _ => some i
  | .unpin call _ => some call.slot
  | .unpinClaimed i _ => some i
  | _ => none

/-- The task that `SchedulerCore::wake` is called for, with the call it is part of. -/
def Pc.wakes : Pc → Option (Call × Ref)
  | .wakeLoad call task => some (call, task)
  | .wakeSwap call task _ => some (call, task)
  | .wakeStore call task => some (call, task)
  | .wakeSchedule call task => some (call, task)
  | _ => none

/-- The call a thread is in. -/
def Pc.call? : Pc → Option Call
  | .pin call => some call
  | .loadGeneration token => some (.wake token)
  | .loadTask call => some call
  | .wakeLoad call _ => some call
  | .wakeSwap call _ _ => some call
  | .wakeStore call _ => some call
  | .wakeSchedule call _ => some call
  | .unpin call _ => some call
  | _ => none

/-- How far `releaseTask` has come. -/
inductive Stage
  | entered
  | marked
  | emptied
  | waiting
  | freeing
  deriving DecidableEq

/-- The task a thread releases. -/
def Pc.release : Pc → Option (Ref × Stage)
  | .releaseDone task => some (task, .entered)
  | .releaseStore task => some (task, .marked)
  | .releaseGeneration task => some (task, .emptied)
  | .releaseWait task => some (task, .waiting)
  | .releaseFree task => some (task, .freeing)
  | _ => none

/-- What the slot of a task shows while the task is released. -/
def State.Shows (s : State θ) (task : Ref) : Stage → Prop
  | .entered => s.task task.slot = some task.incarnation
  | .marked => s.task task.slot = some task.incarnation ∧ s.parkState task = .done
  | .emptied => s.task task.slot = none ∧ s.generation task.slot = task.incarnation ∧
      s.parkState task = .done
  | .waiting => s.task task.slot = none ∧ s.generation task.slot = task.incarnation + 1 ∧
      s.parkState task = .done
  | .freeing => s.task task.slot = none ∧ s.generation task.slot = task.incarnation + 1 ∧
      s.parkState task = .done

/-- The places of the tasks and the threads agree. -/
structure Owners (s : State θ) : Prop where
  needs : ∀ t slot use, (s.pc t).needs t = some (slot, use) → s.use slot = use
  host : ∀ t task, s.host t = some task → s.use task.slot = .live task.incarnation (.running t)
  parks : ∀ t, s.pc t = .parkLoad ∨ s.pc t = .parkStore → s.host t ≠ none
  releases : ∀ t slot n, s.use slot = .live n (.releasing t) →
    ∃ stage, (s.pc t).release = some (⟨slot, n⟩, stage)

/-- What a slot shows. -/
structure Stages (s : State θ) : Prop where
  registered : ∀ slot n, s.task slot = some n → ∃ p, s.use slot = .live n p
  settled : ∀ slot n p, s.use slot = .live n p → (∀ u, p ≠ .releasing u) →
    s.task slot = some n ∧ s.generation slot = n
  living : ∀ slot n p, s.use slot = .live n p → s.memory ⟨slot, n⟩ = .built
  built : ∀ slot t n, s.use slot = .building t n → s.generation slot = n ∧
    s.memory ⟨slot, n⟩ = .built
  past : ∀ task, s.memory task = .freed → task.incarnation < s.generation task.slot
  known : ∀ slot n, s.task slot = some n → s.generation slot = n
  releases : ∀ t task stage, (s.pc t).release = some (task, stage) → s.Shows task stage
  parked : ∀ slot n p, s.use slot = .live n p → s.parkState ⟨slot, n⟩ = .parked → p = .parked
  running : ∀ slot n t, s.use slot = .building t n → s.parkState ⟨slot, n⟩ ≠ .parked

/-- Pinned threads. -/
structure Holders (s : State θ) : Prop where
  slot : ∀ t call task, (s.pc t).wakes = some (call, task) → task.slot = call.slot
  slotOf : ∀ t i task, s.pc t = .readInfo i task ∨ s.pc t = .claim i task ∨
    s.pc t = .unpinClaimed i task → task.slot = i
  living : ∀ t task, (s.pc t).holds = some task → ∃ p, s.use task.slot = .live task.incarnation p
  waited : ∀ t u task, (s.pc t).holds = some task → s.pc u ≠ .releaseFree task
  seen : ∀ t call task seen, s.pc t = .wakeSwap call task seen → seen ≠ .done ∧ seen ≠ .notified
  generation : ∀ t token task, (s.pc t).wakes = some (.wake token, task) →
    word task.incarnation = token.generation
  loads : ∀ t token, s.pc t = .loadTask (.wake token) →
    word (s.generation token.slot) = token.generation ∨
      ∃ u task, task.slot = token.slot ∧ s.pc u = .releaseWait task

/-- The pins of a slot are the threads pinned to it. -/
def Pinned (s : State θ) : Prop :=
  ∀ slot, ∃ threads : Finset θ,
    (∀ t, t ∈ threads ↔ (s.pc t).pinned = some slot) ∧ s.pins slot = threads.card

/-- The records. -/
structure Records (s : State θ) : Prop where
  acts : ∀ act ∈ s.acts, act.registered = true ∧ ∀ token, act.token = some token →
    act.task.slot = token.slot ∧ word act.task.incarnation = token.generation
  results : ∀ result ∈ s.results,
    (∀ task ∈ result.touched, task.slot = result.token.slot ∧
      word task.incarnation = result.token.generation) ∧
    (result.woke = true → result.touched ≠ [])
  touched : ∀ t token, (s.pc t).call? = some (.wake token) →
    ∀ task ∈ s.touched t, task.slot = token.slot ∧ word task.incarnation = token.generation
  reads : ∀ t call task seen, s.pc t = .wakeSwap call task seen ∨ s.pc t = .wakeStore call task ∨
    s.pc t = .wakeSchedule call task → s.touched t ≠ []
  woke : ∀ t call, s.pc t = .unpin call true → s.touched t ≠ []
  noFault : s.fault = false

/-- The invariant of the slab. -/
structure Sound (s : State θ) : Prop where
  owners : Owners s
  stages : Stages s
  holders : Holders s
  pinned : Pinned s
  records : Records s

attribute [local grind] Pc.needs Pc.pinned Pc.wakes Pc.call? Pc.release Pc.holds State.Shows
attribute [local grind ext] Ref

theorem sound_initial : Sound (initial : State θ) := by
  refine ⟨?_, ?_, ?_, fun slot ↦ ⟨∅, ?_⟩, ?_⟩
  · constructor <;> first | assumption | grind -linarith [initial]
  · constructor <;> first | assumption | grind -linarith [initial]
  · constructor <;> first | assumption | grind -linarith [initial]
  · simp [initial, Pc.pinned]
  · constructor <;> first | assumption | grind -linarith [initial]

/-! ### One slot at a time -/

/-- What one slot shows. -/
structure StagesAt (s : State θ) (slot : ℕ) : Prop where
  registered : ∀ n, s.task slot = some n → ∃ p, s.use slot = .live n p
  settled : ∀ n p, s.use slot = .live n p → (∀ u, p ≠ .releasing u) →
    s.task slot = some n ∧ s.generation slot = n
  living : ∀ n p, s.use slot = .live n p → s.memory ⟨slot, n⟩ = .built
  built : ∀ t n, s.use slot = .building t n → s.generation slot = n ∧ s.memory ⟨slot, n⟩ = .built
  past : ∀ n, s.memory ⟨slot, n⟩ = .freed → n < s.generation slot
  known : ∀ n, s.task slot = some n → s.generation slot = n
  releases : ∀ t n stage, (s.pc t).release = some (⟨slot, n⟩, stage) → s.Shows ⟨slot, n⟩ stage
  parked : ∀ n p, s.use slot = .live n p → s.parkState ⟨slot, n⟩ = .parked → p = .parked
  running : ∀ n t, s.use slot = .building t n → s.parkState ⟨slot, n⟩ ≠ .parked

theorem Stages.at {s : State θ} (hs : Stages s) (slot : ℕ) : StagesAt s slot where
  registered := hs.registered slot
  settled := hs.settled slot
  living := hs.living slot
  built := hs.built slot
  past n := hs.past ⟨slot, n⟩
  known := hs.known slot
  releases t n := hs.releases t ⟨slot, n⟩
  parked := hs.parked slot
  running := hs.running slot

theorem stages_of_at {s : State θ} (hs : ∀ slot, StagesAt s slot) : Stages s where
  registered slot := (hs slot).registered
  settled slot := (hs slot).settled
  living slot := (hs slot).living
  built slot := (hs slot).built
  past task := (hs task.slot).past task.incarnation
  known slot := (hs slot).known
  releases t task := (hs task.slot).releases t task.incarnation
  parked slot := (hs slot).parked
  running slot := (hs slot).running

section
variable {s s' : State θ} {slot n : ℕ}

/-- A slot that nobody writes shows what it did. -/
theorem StagesAt.frame (hs : StagesAt s slot) (huse : s'.use slot = s.use slot)
    (htask : s'.task slot = s.task slot) (hgeneration : s'.generation slot = s.generation slot)
    (hmemory : ∀ n, s'.memory ⟨slot, n⟩ = s.memory ⟨slot, n⟩)
    (hparkState : ∀ n, s'.parkState ⟨slot, n⟩ = s.parkState ⟨slot, n⟩)
    (hreleases : ∀ u n stage, (s'.pc u).release = some (⟨slot, n⟩, stage) →
      (s.pc u).release = some (⟨slot, n⟩, stage)) : StagesAt s' slot := by
  have hshows : ∀ n stage, s.Shows ⟨slot, n⟩ stage → s'.Shows ⟨slot, n⟩ stage := by
    intro n stage h
    cases stage <;> simpa only [State.Shows, htask, hgeneration, hparkState] using h
  obtain ⟨h1, h2, h3, h4, h5, h6, h7, h8, h9⟩ := hs
  simp only [← huse, ← htask, ← hgeneration, ← hmemory, ← hparkState] at h1 h2 h3 h4 h5 h6 h8 h9
  exact ⟨h1, h2, h3, h4, h5, h6,
    fun u n stage h ↦ hshows n stage (h7 u n stage (hreleases u n stage h)), h8, h9⟩

/-- The slot of a living task. -/
theorem StagesAt.of_live {p : Place θ} (huse : s.use slot = .live n p)
    (htask : ∀ m, s.task slot = some m → m = n ∧ s.generation slot = n)
    (hsettled : (∀ u, p ≠ .releasing u) → s.task slot = some n)
    (hliving : s.memory ⟨slot, n⟩ = .built)
    (hpast : ∀ m, s.memory ⟨slot, m⟩ = .freed → m < s.generation slot)
    (hreleases : ∀ u m stage, (s.pc u).release = some (⟨slot, m⟩, stage) →
      s.Shows ⟨slot, m⟩ stage)
    (hparked : s.parkState ⟨slot, n⟩ = .parked → p = .parked) : StagesAt s slot where
  registered m h := ⟨p, (htask m h).1 ▸ huse⟩
  settled m q h hstays := by
    obtain ⟨rfl, rfl⟩ := Use.live.inj (huse.symm.trans h)
    exact ⟨hsettled hstays, (htask n (hsettled hstays)).2⟩
  living _ q h := by
    obtain ⟨rfl, rfl⟩ := Use.live.inj (huse.symm.trans h)
    exact hliving
  built u _ h := nomatch huse.symm.trans h
  past := hpast
  known m h := (htask m h).2.trans (htask m h).1.symm
  releases := hreleases
  parked _ q h := by
    obtain ⟨rfl, rfl⟩ := Use.live.inj (huse.symm.trans h)
    exact hparked
  running m u h := nomatch huse.symm.trans h

/-- A slot without a task. -/
theorem StagesAt.of_vacant (hlive : ∀ n p, s.use slot ≠ .live n p) (htask : s.task slot = none)
    (hbuilding : ∀ u n, s.use slot = .building u n → s.generation slot = n ∧
      s.memory ⟨slot, n⟩ = .built ∧ s.parkState ⟨slot, n⟩ ≠ .parked)
    (hpast : ∀ m, s.memory ⟨slot, m⟩ = .freed → m < s.generation slot)
    (hreleases : ∀ u m stage, (s.pc u).release ≠ some (⟨slot, m⟩, stage)) : StagesAt s slot where
  registered _ h := nomatch htask.symm.trans h
  settled m p h := absurd h (hlive m p)
  living m p h := absurd h (hlive m p)
  built u m h := ⟨(hbuilding u m h).1, (hbuilding u m h).2.1⟩
  past := hpast
  known _ h := nomatch htask.symm.trans h
  releases u m stage h := absurd h (hreleases u m stage)
  parked m p h := absurd h (hlive m p)
  running m u h := (hbuilding u m h).2.2

/-- Only one slot is written. -/
theorem Stages.change (hs : Stages s) (slot : ℕ)
    (huse : ∀ other, other ≠ slot → s'.use other = s.use other)
    (htask : ∀ other, other ≠ slot → s'.task other = s.task other)
    (hgeneration : ∀ other, other ≠ slot → s'.generation other = s.generation other)
    (hmemory : ∀ task : Ref, task.slot ≠ slot → s'.memory task = s.memory task)
    (hparkState : ∀ task : Ref, task.slot ≠ slot → s'.parkState task = s.parkState task)
    (hreleases : ∀ u (task : Ref) stage, task.slot ≠ slot →
      (s'.pc u).release = some (task, stage) → (s.pc u).release = some (task, stage))
    (hslot : StagesAt s' slot) : Stages s' := by
  refine stages_of_at fun other ↦ ?_
  rcases eq_or_ne other slot with rfl | hne
  · exact hslot
  · exact (hs.at other).frame (huse other hne) (htask other hne) (hgeneration other hne)
      (fun n ↦ hmemory ⟨other, n⟩ hne) (fun n ↦ hparkState ⟨other, n⟩ hne)
      (fun u n stage ↦ hreleases u ⟨other, n⟩ stage hne)

/-- A write to a task of one slot leaves the others' alone. -/
theorem update_ref_of_slot_ne {α : Type*} {f : Ref → α} {task other : Ref} {a : α}
    (hne : other.slot ≠ task.slot) : Function.update f task a other = f other :=
  Function.update_of_ne (mt (congrArg Ref.slot) hne) ..

end

section
variable [DecidableEq θ] {s s' : State θ} {t : θ} {pc : Pc}

/-! ### The moving thread -/

omit [DecidableEq θ] in
/-- Whoever is alive is there. -/
theorem Sound.touch {task : Ref} {p : Place θ} (hs : Sound s)
    (hlive : s.use task.slot = .live task.incarnation p) : s.touch task = s := by
  simp [State.touch, hs.stages.living _ _ _ hlive]

/-- A thread moves on, and what it then needs is so. -/
theorem Owners.move (hs : Owners s) (huse : s'.use = s.use) (hhost : s'.host = s.host)
    (hpc : s'.pc = Function.update s.pc t pc)
    (hneeds : ∀ slot use, pc.needs t = some (slot, use) → s.use slot = use)
    (hparks : pc = .parkLoad ∨ pc = .parkStore → s.host t ≠ none)
    (hreleases : ∀ task stage, (s.pc t).release = some (task, stage) →
      ∃ stage', pc.release = some (task, stage')) : Owners s' := by
  obtain ⟨h1, h2, h3, h4⟩ := hs
  cases s'
  dsimp only at huse hhost hpc
  subst huse hhost hpc
  refine ⟨?_, ?_, ?_, fun u slot n hreleasing ↦ ?_⟩ <;> dsimp only at *
  · grind -linarith
  · grind -linarith
  · grind -linarith
  · obtain ⟨stage, hstage⟩ := h4 u slot n hreleasing
    rcases eq_or_ne u t with rfl | hne
    · rw [Function.update_self]
      exact hreleases _ _ hstage
    · rw [Function.update_of_ne hne]
      exact ⟨stage, hstage⟩

/-- A thread moves on, and changes no slot and no task. -/
theorem Stages.move (hs : Stages s) (htask : s'.task = s.task)
    (hgeneration : s'.generation = s.generation) (huse : s'.use = s.use)
    (hmemory : s'.memory = s.memory) (hparkState : s'.parkState = s.parkState)
    (hpc : s'.pc = Function.update s.pc t pc)
    (hrelease : ∀ task stage, pc.release = some (task, stage) → s.Shows task stage) :
    Stages s' := by
  obtain ⟨h1, h2, h3, h4, h5, h6, h7, h8, h9⟩ := hs
  cases s'
  dsimp only at htask hgeneration huse hmemory hparkState hpc
  subst htask hgeneration huse hmemory hparkState hpc
  refine ⟨h1, h2, h3, h4, h5, h6, fun u task stage hstage ↦ ?_, h8, h9⟩
  change s.Shows task stage
  rcases eq_or_ne u t with rfl | hne
  · exact hrelease task stage (by simpa using hstage)
  · exact h7 u task stage (by simpa [hne] using hstage)

/-- A thread moves on outside a release. -/
theorem Holders.move (hs : Holders s) (huse : s'.use = s.use)
    (hgeneration : s'.generation = s.generation) (hpc : s'.pc = Function.update s.pc t pc)
    (hwakes : ∀ call task, pc.wakes = some (call, task) → task.slot = call.slot ∧
      ∀ token, call = .wake token → word task.incarnation = token.generation)
    (hslot : ∀ i task, pc = .readInfo i task ∨ pc = .claim i task ∨ pc = .unpinClaimed i task →
      task.slot = i)
    (hholds : ∀ task, pc.holds = some task → (∃ p, s.use task.slot = .live task.incarnation p) ∧
      ∀ u, s.pc u ≠ .releaseFree task)
    (hseen : ∀ call task seen, pc = .wakeSwap call task seen → seen ≠ .done ∧ seen ≠ .notified)
    (hloads : ∀ token, pc = .loadTask (.wake token) →
      word (s.generation token.slot) = token.generation)
    (hwaits : ∀ task, s.pc t ≠ .releaseWait task) (hfree : ∀ task, pc ≠ .releaseFree task) :
    Holders s' := by
  obtain ⟨h1, h2, h3, h4, h5, h6, h7⟩ := hs
  cases s'
  dsimp only at huse hgeneration hpc
  subst huse hgeneration hpc
  refine ⟨?_, ?_, ?_, ?_, ?_, ?_, fun u token hload ↦ ?_⟩ <;> dsimp only at *
  case refine_7 =>
    rcases eq_or_ne u t with rfl | hne
    · exact .inl (by grind -linarith)
    · refine (h7 u token (by grind -linarith)).imp (by grind -linarith) ?_
      rintro ⟨v, task, hslot, hwait⟩
      exact ⟨v, task, hslot, by grind -linarith⟩
  all_goals grind -linarith

/-- A thread moves on and stays pinned, or stays unpinned. -/
theorem Pinned.move (hs : Pinned s) (hpins : s'.pins = s.pins)
    (hpc : s'.pc = Function.update s.pc t pc) (hpinned : pc.pinned = (s.pc t).pinned) :
    Pinned s' := by
  intro slot
  obtain ⟨threads, hmem, hcard⟩ := hs slot
  refine ⟨threads, fun u ↦ ?_, by rw [hpins, hcard]⟩
  rw [hmem u, hpc]
  rcases eq_or_ne u t with rfl | hne
  · rw [Function.update_self, hpinned]
  · rw [Function.update_of_ne hne]

/-- A thread pins a slot. -/
theorem Pinned.pin {slot : ℕ} (hs : Pinned s)
    (hpins : s'.pins = Function.update s.pins slot (s.pins slot + 1))
    (hpc : s'.pc = Function.update s.pc t pc) (hbefore : (s.pc t).pinned = none)
    (hafter : pc.pinned = some slot) : Pinned s' := by
  intro other
  obtain ⟨threads, hmem, hcard⟩ := hs other
  rcases eq_or_ne other slot with rfl | hne
  · have hnew : t ∉ threads := by simp [hmem, hbefore]
    refine ⟨insert t threads, fun u ↦ ?_, ?_⟩
    · rw [Finset.mem_insert, hmem u, hpc]
      grind -linarith
    · rw [Finset.card_insert_of_notMem hnew, hpins, Function.update_self, hcard]
  · refine ⟨threads, fun u ↦ ?_, by rw [hpins, Function.update_of_ne hne, hcard]⟩
    rw [hmem u, hpc]
    grind -linarith

/-- A thread lets go of a slot. -/
theorem Pinned.unpin {slot : ℕ} (hs : Pinned s)
    (hpins : s'.pins = Function.update s.pins slot (s.pins slot - 1))
    (hpc : s'.pc = Function.update s.pc t pc) (hbefore : (s.pc t).pinned = some slot)
    (hafter : pc.pinned = none) : Pinned s' := by
  intro other
  obtain ⟨threads, hmem, hcard⟩ := hs other
  rcases eq_or_ne other slot with rfl | hne
  · have hold : t ∈ threads := by simp [hmem, hbefore]
    refine ⟨threads.erase t, fun u ↦ ?_, ?_⟩
    · rw [Finset.mem_erase, hmem u, hpc]
      grind -linarith
    · rw [Finset.card_erase_of_mem hold, hpins, Function.update_self, hcard]
  · refine ⟨threads, fun u ↦ ?_, by rw [hpins, Function.update_of_ne hne, hcard]⟩
    rw [hmem u, hpc]
    grind -linarith

omit [DecidableEq θ] in
/-- Nobody is pinned to a slot without pins. -/
theorem Pinned.free {slot : ℕ} (hs : Pinned s) (hpins : s.pins slot = 0) (u : θ) :
    (s.pc u).pinned ≠ some slot := by
  obtain ⟨threads, hmem, hcard⟩ := hs slot
  rw [hpins] at hcard
  rw [Ne, ← hmem u, Finset.card_eq_zero.mp hcard.symm]
  exact Finset.notMem_empty u

/-- A thread moves on and records nothing. -/
theorem Records.move (hs : Records s) (hacts : s'.acts = s.acts) (hresults : s'.results = s.results)
    (htouched : s'.touched = s.touched) (hfault : s'.fault = s.fault)
    (hpc : s'.pc = Function.update s.pc t pc)
    (hcall : ∀ token, pc.call? = some (.wake token) → (s.pc t).call? = some (.wake token))
    (hreads : ∀ call task seen, pc = .wakeSwap call task seen ∨ pc = .wakeStore call task ∨
      pc = .wakeSchedule call task → s.touched t ≠ [])
    (hwoke : ∀ call, pc = .unpin call true → s.touched t ≠ []) : Records s' := by
  obtain ⟨h1, h2, h3, h4, h5, h6⟩ := hs
  cases s'
  dsimp only at hacts hresults htouched hfault hpc
  subst hacts hresults htouched hfault hpc
  constructor <;> dsimp only <;> first | assumption | grind -linarith

/-- A thread moves on without touching anything. -/
theorem Sound.goto (hs : Sound s)
    (hneeds : ∀ slot use, pc.needs t = some (slot, use) → s.use slot = use)
    (hparks : pc = .parkLoad ∨ pc = .parkStore → s.host t ≠ none)
    (hreleases : ∀ task stage, (s.pc t).release = some (task, stage) →
      ∃ stage', pc.release = some (task, stage'))
    (hrelease : ∀ task stage, pc.release = some (task, stage) → s.Shows task stage)
    (hwakes : ∀ call task, pc.wakes = some (call, task) → task.slot = call.slot ∧
      ∀ token, call = .wake token → word task.incarnation = token.generation)
    (hslot : ∀ i task, pc = .readInfo i task ∨ pc = .claim i task ∨ pc = .unpinClaimed i task →
      task.slot = i)
    (hholds : ∀ task, pc.holds = some task → (∃ p, s.use task.slot = .live task.incarnation p) ∧
      ∀ u, s.pc u ≠ .releaseFree task)
    (hseen : ∀ call task seen, pc = .wakeSwap call task seen → seen ≠ .done ∧ seen ≠ .notified)
    (hloads : ∀ token, pc = .loadTask (.wake token) →
      word (s.generation token.slot) = token.generation)
    (hwaits : ∀ task, s.pc t ≠ .releaseWait task) (hfree : ∀ task, pc ≠ .releaseFree task)
    (hpinned : pc.pinned = (s.pc t).pinned)
    (hcall : ∀ token, pc.call? = some (.wake token) → (s.pc t).call? = some (.wake token))
    (hreads : ∀ call task seen, pc = .wakeSwap call task seen ∨ pc = .wakeStore call task ∨
      pc = .wakeSchedule call task → s.touched t ≠ [])
    (hwoke : ∀ call, pc = .unpin call true → s.touched t ≠ []) : Sound (s.goto t pc) :=
  ⟨hs.owners.move rfl rfl rfl hneeds hparks hreleases,
    hs.stages.move rfl rfl rfl rfl rfl rfl hrelease,
    hs.holders.move rfl rfl rfl hwakes hslot hholds hseen hloads hwaits hfree,
    hs.pinned.move rfl rfl hpinned, hs.records.move rfl rfl rfl rfl rfl hcall hreads hwoke⟩

/-! ### Changing hands -/

/-- The thread that has a slot or its task. -/
def Place.owner : Place θ → Option θ
  | .hand t => some t
  | .running t => some t
  | .claimed t => some t
  | .releasing t => some t
  | _ => none

/-- The thread that has a slot or its task. -/
def Use.owner : Use θ → Option θ
  | .taken t => some t
  | .building t _ => some t
  | .live _ p => p.owner
  | .gone t => some t
  | .free => none

attribute [local grind] Place.owner Use.owner

omit [DecidableEq θ] in
/-- What a thread needs is its own. -/
theorem Pc.owner_of_needs {slot : ℕ} {use : Use θ} (hneeds : pc.needs t = some (slot, use)) :
    use.owner = some t := by
  cases pc <;> grind -linarith

omit [DecidableEq θ] in
/-- Nobody but its thread releases a task. -/
theorem Owners.releasing_of (hs : Owners s) (u : θ) (task : Ref) (stage : Stage)
    (hrelease : (s.pc u).release = some (task, stage)) :
    s.use task.slot = .live task.incarnation (.releasing u) := by
  refine hs.needs u _ _ ?_
  cases hpc : s.pc u <;> grind -linarith

omit [DecidableEq θ] in
/-- Nobody releases what is not there. -/
theorem Owners.not_release {slot : ℕ} (hs : Owners s) (hold : ∀ n p, s.use slot ≠ .live n p)
    (u : θ) (n : ℕ) (stage : Stage) : (s.pc u).release ≠ some (⟨slot, n⟩, stage) :=
  fun hrelease ↦ hold n _ (hs.releasing_of u ⟨slot, n⟩ stage hrelease)

omit [DecidableEq θ] in
/-- A slot has one releaser. -/
theorem Owners.releaser_unique {task : Ref} {u : θ} {n : ℕ} {stage stage' : Stage} (hs : Owners s)
    (ht : (s.pc t).release = some (task, stage))
    (hu : (s.pc u).release = some (⟨task.slot, n⟩, stage')) : u = t :=
  have hlive := hs.releasing_of t task stage ht
  have hlive' := hs.releasing_of u ⟨task.slot, n⟩ stage' hu
  (Place.releasing.inj (Use.live.inj (hlive.symm.trans hlive')).2).symm

/-- Whoever releases after a step of another kind has released before. -/
theorem Pc.release_of_update {f : θ → Pc} {u : θ} {release : Ref × Stage}
    (hrelease : (Function.update f t pc u).release = some release) (hpc : pc.release = none) :
    (f u).release = some release := by
  rcases eq_or_ne u t with rfl | hne
  · rw [Function.update_self, hpc] at hrelease
    exact absurd hrelease (by simp)
  · rwa [Function.update_of_ne hne] at hrelease

/-- A slot that is nobody else's changes its use. -/
theorem Owners.change {slot : ℕ} {use : Use θ} {host : Option Ref} (hs : Owners s)
    (huse : s'.use = Function.update s.use slot use)
    (hhost : s'.host = Function.update s.host t host)
    (hpc : s'.pc = Function.update s.pc t pc)
    (howner : ∀ u, (s.use slot).owner = some u → u = t)
    (hneeds : ∀ other use', pc.needs t = some (other, use') →
      Function.update s.use slot use other = use')
    (hruns : ∀ task, host = some task →
      Function.update s.use slot use task.slot = .live task.incarnation (.running t))
    (hparks : pc = .parkLoad ∨ pc = .parkStore → host ≠ none)
    (hreleases : ∀ task stage, (s.pc t).release = some (task, stage) → task.slot = slot)
    (hreleasing : ∀ u n, use = .live n (.releasing u) →
      u = t ∧ ∃ stage, pc.release = some (⟨slot, n⟩, stage)) : Owners s' := by
  obtain ⟨h1, h2, h3, h4⟩ := hs
  cases s'
  dsimp only at huse hhost hpc
  subst huse hhost hpc
  refine ⟨fun u other use' h ↦ ?_, fun u task h ↦ ?_, fun u h ↦ ?_, fun u other n h ↦ ?_⟩ <;>
    dsimp only at *
  · rcases eq_or_ne u t with rfl | hne
    · exact hneeds other use' (by simpa using h)
    · rw [Function.update_of_ne hne] at h
      have howns := Pc.owner_of_needs h
      have hold := h1 u other use' h
      grind -linarith
  · rcases eq_or_ne u t with rfl | hne
    · exact hruns task (by simpa using h)
    · have hold := h2 u task (by simpa [hne] using h)
      have hother : task.slot ≠ slot := fun heq ↦ hne (howner u (by rw [← heq, hold]; rfl))
      rw [Function.update_of_ne hother]
      exact hold
  · grind -linarith
  · rcases eq_or_ne other slot with rfl | hne
    · obtain ⟨rfl, hstage⟩ := hreleasing u n (by simpa using h)
      rwa [Function.update_self]
    · obtain ⟨stage, hstage⟩ := h4 u other n (by simpa [hne] using h)
      have hmoves : u ≠ t := fun heq ↦ hne (hreleases _ stage (heq ▸ hstage))
      rw [Function.update_of_ne hmoves]
      exact ⟨stage, hstage⟩

omit [DecidableEq θ] in
/-- A task that is not on its way out gets to another place. -/
theorem Stages.place {task : Ref} {p p' : Place θ} (hs : Stages s)
    (hlive : s.use task.slot = .live task.incarnation p) (hstays : ∀ u, p ≠ .releasing u)
    (hparked : s.parkState task = .parked → p' = .parked) : Stages (s.place task p') := by
  have hold := hs.at task.slot
  have hsettled := hs.settled _ _ _ hlive hstays
  refine hs.change task.slot (fun _ hne ↦ Function.update_of_ne hne ..) (fun _ _ ↦ rfl)
    (fun _ _ ↦ rfl) (fun _ _ ↦ rfl) (fun _ _ ↦ rfl) (fun _ _ _ _ ↦ id) ?_
  refine .of_live (Function.update_self ..) (fun m hm ↦ ?_) (fun _ ↦ hsettled.1)
    (hold.living _ _ hlive) hold.past hold.releases hparked
  exact ⟨Option.some.inj (hm.symm.trans hsettled.1), hsettled.2⟩

omit [DecidableEq θ] in
/-- A task's word is written before the task is `Done`. -/
theorem Stages.setParkState {task : Ref} {p : Place θ} (hs : Stages s) (state : TaskState)
    (hlive : s.use task.slot = .live task.incarnation p)
    (hstays : ∀ u stage, (s.pc u).release = some (task, stage) → stage = .entered)
    (hparked : state = .parked → p = .parked) : Stages (s.setParkState task state) := by
  have hold := hs.at task.slot
  refine hs.change task.slot (fun _ _ ↦ rfl) (fun _ _ ↦ rfl) (fun _ _ ↦ rfl) (fun _ _ ↦ rfl)
    (fun _ ↦ update_ref_of_slot_ne) (fun _ _ _ _ ↦ id) ?_
  refine .of_live hlive (fun m hm ↦ ?_) (fun hp ↦ (hold.settled _ _ hlive hp).1)
    (hold.living _ _ hlive) hold.past (fun u m stage hstage ↦ ?_) (fun h ↦ hparked ?_)
  · obtain ⟨q, hq⟩ := hold.registered m hm
    obtain ⟨rfl, -⟩ := Use.live.inj (hlive.symm.trans hq)
    exact ⟨rfl, hold.known _ hm⟩
  · have hshows := hold.releases u m stage hstage
    rcases eq_or_ne m task.incarnation with rfl | hne
    · obtain rfl := hstays u stage hstage
      exact hshows
    · have hother : (⟨task.slot, m⟩ : Ref) ≠ task := fun heq ↦ hne (congrArg Ref.incarnation heq)
      cases stage <;> simpa [State.Shows, State.setParkState, hother] using hshows
  · exact (Function.update_self ..).symm.trans h

omit [DecidableEq θ] in
/-- A slot changes its use, and whoever holds its task still does. -/
theorem Holders.change {slot : ℕ} {use : Use θ} (hs : Holders s)
    (huse : s'.use = Function.update s.use slot use) (hgeneration : s'.generation = s.generation)
    (hpc : s'.pc = s.pc)
    (hlive : ∀ u task, (s.pc u).holds = some task → task.slot = slot →
      ∃ p, use = .live task.incarnation p) : Holders s' := by
  obtain ⟨h1, h2, h3, h4, h5, h6, h7⟩ := hs
  cases s'
  dsimp only at huse hgeneration hpc
  subst huse hgeneration hpc
  refine ⟨h1, h2, fun u task hholds ↦ ?_, h4, h5, h6, h7⟩
  dsimp only
  rcases eq_or_ne task.slot slot with heq | hne
  · rw [heq, Function.update_self]
    exact hlive u task hholds heq
  · rw [Function.update_of_ne hne]
    exact h3 u task hholds

omit [DecidableEq θ] in
/-- Holders of a task that only gets to another place. -/
theorem Holders.place {task : Ref} {p p' : Place θ} (hs : Holders s)
    (hlive : s.use task.slot = .live task.incarnation p) : Holders (s.place task p') := by
  refine hs.change rfl rfl rfl fun u other hholds heq ↦ ?_
  obtain ⟨q, hq⟩ := hs.living u other hholds
  rw [heq, hlive] at hq
  obtain ⟨hsame, -⟩ := Use.live.inj hq
  exact ⟨p', by rw [hsame]⟩

omit [DecidableEq θ] in
/-- Only a living task is in its slot. -/
theorem Stages.task_eq_none (hs : Stages s) (slot : ℕ) (hold : ∀ n p, s.use slot ≠ .live n p) :
    s.task slot = none := by
  refine Option.eq_none_iff_forall_ne_some.mpr fun n htask ↦ ?_
  obtain ⟨p, hp⟩ := hs.registered slot n htask
  exact hold n p hp

omit [DecidableEq θ] in
/-- A slot without a task changes hands. -/
theorem Stages.vacate {slot : ℕ} {use : Use θ} (hs : Stages s) (howners : Owners s)
    (hold : ∀ n p, s.use slot ≠ .live n p) (hlive : ∀ n p, use ≠ .live n p)
    (hbuilding : ∀ u n, use ≠ .building u n) :
    Stages { s with use := Function.update s.use slot use } := by
  have hnone := hs.task_eq_none slot hold
  refine hs.change slot (fun _ hne ↦ Function.update_of_ne hne ..) (fun _ _ ↦ rfl)
    (fun _ _ ↦ rfl) (fun _ _ ↦ rfl) (fun _ _ ↦ rfl) (fun _ _ _ _ ↦ id) ?_
  have huse : Function.update s.use slot use slot = use := Function.update_self ..
  exact .of_vacant (fun n p h ↦ hlive n p (huse.symm.trans h)) hnone
    (fun u n h ↦ absurd (huse.symm.trans h) (hbuilding u n)) (hs.at slot).past
    (howners.not_release hold)

/-! ### Beginning something -/

/-- The thread is between two calls, or before the first access of a loop's turn. -/
def Pc.Quiet (pc : Pc) : Prop :=
  pc = .idle ∨ (∃ i, pc = .peek i) ∨ ∃ call, pc = .pin call ∧ call.token? = none

attribute [local grind] Pc.Quiet Call.token?

theorem Call.next_quiet (c : Config) (call : Call) : (call.next c).Quiet := by
  cases call <;> grind -linarith [Call.next]

/-- A thread that needs nothing and is pinned to nothing gets between two calls. -/
theorem Sound.quiet (hs : Sound s) (hquiet : pc.Quiet) (hpinned : (s.pc t).pinned = none)
    (hrelease : (s.pc t).release = none) : Sound (s.goto t pc) := by
  rcases hquiet with rfl | ⟨i, rfl⟩ | ⟨call, rfl, htoken⟩
  · apply hs.goto <;> grind -linarith
  · apply hs.goto <;> grind -linarith
  · apply hs.goto <;> grind -linarith

theorem Sound.wake {token : Token} (hs : Sound s) (hidle : s.pc t = .idle) :
    Sound (s.wake t token) := by
  unfold State.wake
  split_ifs
  · refine ⟨hs.owners.move rfl rfl rfl ?_ ?_ ?_, hs.stages.move rfl rfl rfl rfl rfl rfl ?_,
      hs.holders.move rfl rfl rfl ?_ ?_ ?_ ?_ ?_ ?_ ?_, hs.pinned.move rfl rfl ?_, ?records⟩
    case records =>
      obtain ⟨h1, h2, h3, h4, h5, h6⟩ := hs.records
      constructor <;> dsimp only [State.goto] at * <;> first | assumption | grind -linarith
    all_goals grind -linarith
  · have hpc : s.pc = Function.update s.pc t (s.pc t) := (Function.update_eq_self t s.pc).symm
    refine ⟨hs.owners.move rfl rfl hpc ?_ ?_ ?_, hs.stages.move rfl rfl rfl rfl rfl hpc ?_,
      hs.holders.move rfl rfl hpc ?_ ?_ ?_ ?_ ?_ ?_ ?_, hs.pinned.move rfl hpc rfl, ?records⟩
    case records =>
      obtain ⟨h1, h2, h3, h4, h5, h6⟩ := hs.records
      constructor <;> dsimp only at * <;> first | assumption | grind -linarith
    all_goals
      clear hpc
      grind -linarith

theorem Sound.reapParkedTasks {c : Config} (hs : Sound s) (hidle : s.pc t = .idle) :
    Sound (s.reapParkedTasks c t) := by
  have hnext := hs.quiet (t := t) (Call.next_quiet c (.reapParkedTasks 0)) (by grind -linarith)
    (by grind -linarith)
  unfold State.reapParkedTasks
  split
  · rename_i i hreaping
    obtain ⟨h1, h2, h3, h4, h5⟩ := hs.quiet (t := t) (Call.next_quiet c (.reapParkedTasks i))
      (by grind -linarith) (by grind -linarith)
    exact ⟨⟨h1.1, h1.2, h1.3, h1.4⟩, ⟨h2.1, h2.2, h2.3, h2.4, h2.5, h2.6, h2.7, h2.8, h2.9⟩,
      ⟨h3.1, h3.2, h3.3, h3.4, h3.5, h3.6, h3.7⟩, h4, ⟨h5.1, h5.2, h5.3, h5.4, h5.5, h5.6⟩⟩
  · exact hs.quiet (by grind -linarith) (by grind -linarith) (by grind -linarith)

/-- A slot without a task changes hands, between threads that are pinned to nothing. -/
theorem Sound.vacate {slot : ℕ} {use : Use θ} (hs : Sound s)
    (hlive : ∀ n p, use ≠ .live n p) (hbuilding : ∀ u n, use ≠ .building u n)
    (hold : ∀ n p, s.use slot ≠ .live n p) (howner : ∀ u, (s.use slot).owner = some u → u = t)
    (hpinned : (s.pc t).pinned = none) (hrelease : (s.pc t).release = none)
    (hpc : pc = .idle ∨ pc = .createGeneration slot ∧ use = .taken t) :
    Sound ({ s with use := Function.update s.use slot use }.goto t pc) := by
  have hhost := hs.owners.host
  have hliving := hs.holders.living
  have hholders : Holders { s with use := Function.update s.use slot use } :=
    hs.holders.change rfl rfl rfl (by grind -linarith)
  refine ⟨hs.owners.change rfl (Function.update_eq_self t s.host).symm rfl howner ?_ ?_ ?_ ?_ ?_,
    (hs.stages.vacate hs.owners hold hlive hbuilding).move rfl rfl rfl rfl rfl rfl ?_,
    hholders.move rfl rfl rfl ?_ ?_ ?_ ?_ ?_ ?_ ?_, hs.pinned.move rfl rfl ?_,
    hs.records.move rfl rfl rfl rfl rfl ?_ ?_ ?_⟩
  all_goals rcases hpc with rfl | ⟨rfl, rfl⟩ <;> grind -linarith

theorem Sound.createTask {slot : ℕ} (hs : Sound s) (hidle : s.pc t = .idle)
    (hfree : s.use slot = .free) :
    Sound ({ s with use := Function.update s.use slot (.taken t) }.goto t
      (.createGeneration slot)) := by
  apply hs.vacate <;> grind -linarith

theorem Sound.abandon {slot : ℕ} (hs : Sound s) (hpc : s.pc t = .createGeneration slot) :
    Sound ({ s with use := Function.update s.use slot .free }.goto t .idle) := by
  have huse := hs.owners.needs t slot (.taken t) (by grind -linarith)
  apply hs.vacate <;> grind -linarith

theorem Sound.releaseSlot {slot : ℕ} (hs : Sound s) (hpc : s.pc t = .releaseSlot slot) :
    Sound ({ s with use := Function.update s.use slot .free }.goto t .idle) := by
  have huse := hs.owners.needs t slot (.gone t) (by grind -linarith)
  apply hs.vacate <;> grind -linarith

/-- A task that its thread has, or nobody, gets to another place, and the thread moves on. -/
theorem Sound.put {task : Ref} {p p' : Place θ} {host : Option Ref} {reaping : θ → Option ℕ}
    (hs : Sound s) (hlive : s.use task.slot = .live task.incarnation p)
    (howner : ∀ u, p.owner = some u → u = t) (hstays : ∀ u, p ≠ .releasing u)
    (hparked : s.parkState task = .parked → p' = .parked)
    (hneeds : ∀ other use', pc.needs t = some (other, use') →
      other = task.slot ∧ use' = .live task.incarnation p')
    (hruns : ∀ other, host = some other → other = task ∧ p' = .running t ∨
      s.host t = some other ∧ other.slot ≠ task.slot)
    (hparks : pc ≠ .parkLoad ∧ pc ≠ .parkStore)
    (hrelease : ∀ other stage, pc.release = some (other, stage) → other = task ∧ stage = .entered)
    (hpinned : pc.pinned = (s.pc t).pinned) (hbefore : (s.pc t).release = none)
    (hreleasing : ∀ u, p' = .releasing u → u = t ∧ pc = .releaseDone task)
    (hwakes : ∀ call other, pc.wakes = some (call, other) →
      (s.pc t).wakes = some (call, other))
    (hholds : ∀ other, pc.holds = some other → (s.pc t).holds = some other)
    (hslot : ∀ i other, pc = .unpinClaimed i other → s.pc t = .claim i other)
    (hloads : ∀ call, pc ≠ .loadTask call) (hfree : ∀ other, pc ≠ .releaseFree other)
    (hseen : ∀ call other seen, pc ≠ .wakeSwap call other seen)
    (hinfo : ∀ i other, pc ≠ .readInfo i other ∧ pc ≠ .claim i other)
    (hcall : ∀ token, pc.call? = some (.wake token) → (s.pc t).call? = some (.wake token))
    (hreads : ∀ call other, pc = .wakeStore call other ∨ pc = .wakeSchedule call other ∨
      pc = .unpin call true → s.touched t ≠ []) :
    Sound ({ s.place task p' with
      host := Function.update s.host t host
      reaping := reaping }.goto t pc) := by
  have hhost := hs.owners.host
  have hsettled := hs.stages.settled _ _ _ hlive hstays
  refine ⟨hs.owners.change rfl rfl rfl ?_ ?_ ?_ ?_ ?_ ?_,
    (hs.stages.place hlive hstays hparked).move rfl rfl rfl rfl rfl rfl ?_,
    (hs.holders.place hlive).move rfl rfl rfl ?_ ?_ ?_ ?_ ?_ ?_ ?_, hs.pinned.move rfl rfl hpinned,
    hs.records.move rfl rfl rfl rfl rfl ?_ ?_ ?_⟩
  · grind -linarith
  · grind -linarith
  · grind -linarith
  · grind -linarith
  · grind -linarith
  · intro u n huse
    obtain ⟨rfl, rfl⟩ := Use.live.inj huse
    obtain ⟨rfl, rfl⟩ := hreleasing u rfl
    exact ⟨rfl, .entered, rfl⟩
  · intro other stage hstage
    obtain ⟨rfl, rfl⟩ := hrelease other stage hstage
    exact hsettled.1
  · have := hs.holders.slot t
    have := hs.holders.generation t
    grind -linarith
  · have := hs.holders.slotOf t
    grind -linarith
  · intro other hother
    exact ⟨(hs.holders.place hlive).living t other (hholds other hother),
      fun u ↦ hs.holders.waited t u other (hholds other hother)⟩
  · grind -linarith
  · grind -linarith
  · intro other hwait
    grind -linarith [State.place]
  · exact hfree
  · exact hcall
  · grind -linarith
  · exact fun call hwoke ↦ hreads call task (.inr (.inr hwoke))

/-- A task that its thread has in hand, or nobody, gets to another place; what the thread runs
stays. -/
theorem Sound.pass {task : Ref} {p p' : Place θ}
    (hs : Sound s) (hlive : s.use task.slot = .live task.incarnation p)
    (howner : ∀ u, p.owner = some u → u = t) (hstays : ∀ u, p ≠ .releasing u)
    (hruns : ∀ u, p ≠ .running u)
    (hparked : s.parkState task = .parked → p' = .parked)
    (hneeds : ∀ other use', pc.needs t = some (other, use') →
      other = task.slot ∧ use' = .live task.incarnation p')
    (hparks : pc ≠ .parkLoad ∧ pc ≠ .parkStore) (hrelease : pc.release = none)
    (hpinned : pc.pinned = (s.pc t).pinned) (hbefore : (s.pc t).release = none)
    (hreleasing : ∀ u, p' ≠ .releasing u)
    (hwakes : ∀ call other, pc.wakes = some (call, other) →
      (s.pc t).wakes = some (call, other))
    (hholds : ∀ other, pc.holds = some other → (s.pc t).holds = some other)
    (hslot : ∀ i other, pc = .unpinClaimed i other → s.pc t = .claim i other)
    (hloads : ∀ call, pc ≠ .loadTask call)
    (hseen : ∀ call other seen, pc ≠ .wakeSwap call other seen)
    (hinfo : ∀ i other, pc ≠ .readInfo i other ∧ pc ≠ .claim i other)
    (hcall : ∀ token, pc.call? = some (.wake token) → (s.pc t).call? = some (.wake token))
    (hreads : ∀ call other, pc = .wakeStore call other ∨ pc = .wakeSchedule call other ∨
      pc = .unpin call true → s.touched t ≠ []) : Sound ((s.place task p').goto t pc) := by
  have hhost := hs.owners.host t
  have hput : Sound ({ s.place task p' with
      host := Function.update s.host t (s.host t)
      reaping := s.reaping }.goto t pc) := by
    refine hs.put hlive howner hstays hparked hneeds ?_ hparks ?_ hpinned hbefore ?_ hwakes hholds
      hslot hloads ?_ hseen hinfo hcall hreads <;> grind -linarith
  rwa [Function.update_eq_self] at hput

theorem Sound.resume {task : Ref} (hs : Sound s) (hidle : s.pc t = .idle)
    (hlive : s.use task.slot = .live task.incarnation .queued) :
    Sound ({ s.place task (.running t) with
      host := Function.update s.host t (some task) }.goto t .idle) := by
  have hparked := hs.stages.parked _ _ _ hlive
  apply hs.put hlive <;> grind -linarith

/-- The running task leaves its thread. -/
theorem Sound.leave {task : Ref} {p : Place θ} (hs : Sound s) (hidle : s.pc t = .idle)
    (hhost : s.host t = some task)
    (hpc : pc = .idle ∧ p = .queued ∨ pc = .releaseDone task ∧ p = .releasing t) :
    Sound ({ s.place task p with host := Function.update s.host t none }.goto t pc) := by
  have hlive := hs.owners.host t task hhost
  have hparked := hs.stages.parked _ _ _ hlive
  apply hs.put hlive <;> grind -linarith

/-! ### Wakers -/

theorem Sound.pin {call : Call} (hs : Sound s) (hpc : s.pc t = .pin call) :
    Sound ({ s with pins := Function.update s.pins call.slot (s.pins call.slot + 1) }.goto t
      call.afterPin) := by
  refine ⟨hs.owners.move rfl rfl rfl ?_ ?_ ?_, hs.stages.move rfl rfl rfl rfl rfl rfl ?_,
    hs.holders.move rfl rfl rfl ?_ ?_ ?_ ?_ ?_ ?_ ?_, hs.pinned.pin rfl rfl ?_ ?_,
    hs.records.move rfl rfl rfl rfl rfl ?_ ?_ ?_⟩
  all_goals cases call <;> grind -linarith [Call.slot, Call.afterPin]

theorem Sound.loadGeneration {token : Token} (hs : Sound s) (hpc : s.pc t = .loadGeneration token) :
    Sound (s.goto t (if word (s.generation token.slot) = token.generation then
      .loadTask (.wake token) else .unpin (.wake token) false)) := by
  split_ifs with hword
  · apply hs.goto <;> grind -linarith [Call.slot]
  · apply hs.goto <;> grind -linarith [Call.slot]

omit [DecidableEq θ] in
/-- A pinned thread that finds a task in the slot of its token has found the right one. -/
theorem Sound.word_eq {token : Token} {n : ℕ} (hs : Sound s)
    (hpc : s.pc t = .loadTask (.wake token)) (htask : s.task token.slot = some n) :
    word n = token.generation := by
  rw [← hs.stages.known _ _ htask]
  rcases hs.holders.loads t token hpc with hword | ⟨u, task, hslot, hwait⟩
  · exact hword
  · have hshows := hs.stages.releases u task .waiting (by rw [hwait]; rfl)
    exact absurd htask (by rw [← hslot, hshows.1]; simp)

theorem Sound.loadTask {call : Call} (hs : Sound s) (hpc : s.pc t = .loadTask call) :
    Sound (s.loadTask t call) := by
  have hregistered := hs.stages.registered
  have hfreeing : ∀ u (task : Ref), s.task task.slot = some task.incarnation →
      s.pc u ≠ .releaseFree task := by
    intro u task htask hfree
    have hshows := hs.stages.releases u task .freeing (by rw [hfree]; rfl)
    exact absurd htask (by rw [hshows.1]; simp)
  unfold State.loadTask
  split
  · apply hs.goto <;> grind -linarith
  · apply hs.goto <;> grind -linarith [Call.slot]
  · apply hs.goto <;> grind -linarith [Call.slot]
  · have hword : ∀ token, s.pc t = .loadTask (.wake token) →
        ∀ n, s.task token.slot = some n → word n = token.generation :=
      fun token h n htask ↦ hs.word_eq h htask
    apply hs.goto <;> grind -linarith [Call.slot]

omit [DecidableEq θ] in
theorem State.setParkState_self (task : Ref) (state : TaskState) :
    (s.setParkState task state).parkState task = state := by
  simp [State.setParkState]

attribute [local grind =] State.setParkState_self

omit [DecidableEq θ] in
/-- A task's word is written before the task is `Done`. -/
theorem Sound.setParkState {task : Ref} {p : Place θ} (hs : Sound s) (state : TaskState)
    (hlive : s.use task.slot = .live task.incarnation p)
    (hstays : ∀ u stage, (s.pc u).release = some (task, stage) → stage = .entered)
    (hparked : state = .parked → p = .parked) : Sound (s.setParkState task state) := by
  obtain ⟨h1, h2, h3, h4, h5⟩ := hs
  exact ⟨⟨h1.1, h1.2, h1.3, h1.4⟩, h2.setParkState state hlive hstays hparked,
    ⟨h3.1, h3.2, h3.3, h3.4, h3.5, h3.6, h3.7⟩, h4, ⟨h5.1, h5.2, h5.3, h5.4, h5.5, h5.6⟩⟩

omit [DecidableEq θ] in
/-- A task that is not on its way out may be written. -/
theorem Owners.not_releasing {task : Ref} {p : Place θ} (hs : Owners s)
    (hlive : s.use task.slot = .live task.incarnation p) (hstays : ∀ u, p ≠ .releasing u) (u : θ)
    (stage : Stage) (hrelease : (s.pc u).release = some (task, stage)) : stage = .entered := by
  have hreleasing := hs.releasing_of u task stage hrelease
  grind -linarith

omit [DecidableEq θ] in
/-- A task that is not `Done` is in its slot, and may be written. -/
theorem Sound.registered_of_holds {task : Ref} (hs : Sound s) (hholds : (s.pc t).holds = some task)
    (hdone : s.parkState task ≠ .done) :
    s.task task.slot = some task.incarnation ∧
      ∀ u stage, (s.pc u).release = some (task, stage) → stage = .entered := by
  obtain ⟨p, hlive⟩ := hs.holders.living t task hholds
  have hentered : ∀ u stage, (s.pc u).release = some (task, stage) → stage = .entered := by
    intro u stage hrelease
    have hshows := hs.stages.releases u task stage hrelease
    cases stage <;> grind -linarith
  refine ⟨?_, hentered⟩
  by_cases hreleasing : ∃ u, p = .releasing u
  · obtain ⟨u, rfl⟩ := hreleasing
    obtain ⟨stage, hstage⟩ := hs.owners.releases u _ _ hlive
    obtain rfl := hentered u stage hstage
    exact hs.stages.releases u task .entered hstage
  · exact (hs.stages.settled _ _ _ hlive fun u hu ↦ hreleasing ⟨u, hu⟩).1

/-- A call of `wake` reads its task. -/
theorem Sound.wakeRead {call : Call} {task : Ref} (hs : Sound s)
    (hpc : s.pc t = .wakeLoad call task ∨ ∃ seen, s.pc t = .wakeSwap call task seen) :
    Sound (s.wakeRead t call task) := by
  have hwakes : (s.pc t).wakes = some (call, task) := by grind -linarith
  have hholds : (s.pc t).holds = some task := by grind -linarith
  have hslot := hs.holders.slot t call task hwakes
  have hword := fun token (heq : call = .wake token) ↦
    hs.holders.generation t token task (heq ▸ hwakes)
  obtain ⟨p, hlive⟩ := hs.holders.living t task hholds
  have hwaited := fun u ↦ hs.holders.waited t u task hholds
  have hsome : s.touched t ++ [task] ≠ [] := by simp
  have hread : Sound { s with
      touched := Function.update s.touched t (s.touched t ++ [task]) } := by
    obtain ⟨h1, h2, h3, h4, h5⟩ := hs
    refine ⟨⟨h1.1, h1.2, h1.3, h1.4⟩, ⟨h2.1, h2.2, h2.3, h2.4, h2.5, h2.6, h2.7, h2.8, h2.9⟩,
      ⟨h3.1, h3.2, h3.3, h3.4, h3.5, h3.6, h3.7⟩, h4, ?_⟩
    obtain ⟨h1, h2, h3, h4, h5, h6⟩ := h5
    constructor <;> dsimp only at * <;> first | assumption | grind -linarith [Call.slot]
  unfold State.wakeRead
  rw [hs.touch hlive]
  dsimp only
  split
  · apply hread.goto <;> grind -linarith
  · apply hread.goto <;> grind -linarith
  · apply hread.goto <;> grind -linarith

omit [DecidableEq θ] in
/-- What a waker writes to the task it holds is recorded. -/
theorem Sound.act {call : Call} {task : Ref} (hs : Sound s)
    (hwakes : (s.pc t).wakes = some (call, task)) (hholds : (s.pc t).holds = some task)
    (htask : s.task task.slot = some task.incarnation) : Sound (s.act call task) := by
  have hslot := hs.holders.slot t call task hwakes
  have hword := fun token (heq : call = .wake token) ↦
    hs.holders.generation t token task (heq ▸ hwakes)
  obtain ⟨p, hlive⟩ := hs.holders.living t task hholds
  unfold State.act
  rw [hs.touch hlive]
  obtain ⟨h1, h2, h3, h4, h5⟩ := hs
  refine ⟨⟨h1.1, h1.2, h1.3, h1.4⟩, ⟨h2.1, h2.2, h2.3, h2.4, h2.5, h2.6, h2.7, h2.8, h2.9⟩,
    ⟨h3.1, h3.2, h3.3, h3.4, h3.5, h3.6, h3.7⟩, h4, ?_⟩
  obtain ⟨h1, h2, h3, h4, h5, h6⟩ := h5
  refine ⟨fun act hact ↦ ?_, h2, h3, h4, h5, h6⟩
  rcases List.mem_append.mp hact with hold | hnew
  · exact h1 act hold
  · obtain rfl := List.mem_singleton.mp hnew
    refine ⟨by simpa using htask, fun token htoken ↦ ?_⟩
    cases call <;> grind -linarith [Call.slot]

theorem Sound.wakeSwap {call : Call} {task : Ref} {seen : TaskState} {spurious : Bool}
    (hs : Sound s) (hpc : s.pc t = .wakeSwap call task seen) :
    Sound (s.wakeSwap t call task seen spurious) := by
  have hwakes : (s.pc t).wakes = some (call, task) := by grind -linarith
  have hholds : (s.pc t).holds = some task := by grind -linarith
  have hseen := hs.holders.seen t call task seen hpc
  have hreads := hs.records.reads t call task seen (.inl hpc)
  unfold State.wakeSwap
  split_ifs with hsame hparked
  · obtain ⟨htask, hentered⟩ := hs.registered_of_holds hholds (by grind -linarith)
    obtain ⟨p, hlive⟩ := hs.holders.living t task hholds
    have hplace := hs.stages.parked _ _ _ hlive (by grind -linarith)
    subst hplace
    have hwrite := (hs.act hwakes hholds htask).setParkState .notified hlive hentered
      (by simp)
    apply hwrite.pass hlive <;> grind -linarith [State.setParkState, State.act, State.touch]
  · obtain ⟨htask, hentered⟩ := hs.registered_of_holds hholds (by grind -linarith)
    obtain ⟨p, hlive⟩ := hs.holders.living t task hholds
    have hwrite := (hs.act hwakes hholds htask).setParkState .notified hlive hentered
      (by simp)
    apply hwrite.goto <;> grind -linarith [State.setParkState, State.act, State.touch]
  · exact hs.wakeRead (.inr ⟨seen, hpc⟩)

theorem Sound.wakeStore {call : Call} {task : Ref} (hs : Sound s)
    (hpc : s.pc t = .wakeStore call task) :
    Sound (((s.act call task).setParkState task .running).goto t (.wakeSchedule call task)) := by
  have hlive := hs.owners.needs t _ _ (by rw [hpc]; rfl)
  have hsettled := hs.stages.settled _ _ _ hlive (by simp)
  have hreads := hs.records.reads t call task .running (.inr (.inl hpc))
  have hwakes : (s.pc t).wakes = some (call, task) := by grind -linarith
  have hslot := hs.holders.slot t call task hwakes
  have hword := hs.holders.generation t
  have hwaited := hs.holders.waited t
  have hwrite := (hs.act hwakes (by grind -linarith) hsettled.1).setParkState .running hlive
    (hs.owners.not_releasing hlive (by simp)) (by simp)
  have hholds : ∀ other, (Pc.wakeSchedule call task).holds = some other →
      (∃ p, s.use other.slot = .live other.incarnation p) ∧ ∀ u, s.pc u ≠ .releaseFree other := by
    rintro other ⟨⟩
    exact ⟨⟨_, hlive⟩, fun u ↦ hwaited u task (by grind -linarith)⟩
  apply hwrite.goto <;> first
    | exact hholds
    | grind -linarith [State.setParkState, State.act, State.touch]

theorem Sound.wakeSchedule {call : Call} {task : Ref} (hs : Sound s)
    (hpc : s.pc t = .wakeSchedule call task) :
    Sound (((s.act call task).place task .queued).goto t (.unpin call true)) := by
  have hlive := hs.owners.needs t _ _ (by rw [hpc]; rfl)
  have hsettled := hs.stages.settled _ _ _ hlive (by simp)
  have hparked := hs.stages.parked _ _ _ hlive
  have hreads := hs.records.reads t call task .running (.inr (.inr hpc))
  have hwakes : (s.pc t).wakes = some (call, task) := by grind -linarith
  have hact := hs.act hwakes (by grind -linarith) hsettled.1
  apply hact.pass hlive <;> grind -linarith [State.act, State.touch]

theorem Sound.readInfo {i : ℕ} {task : Ref} (hs : Sound s) (hpc : s.pc t = .readInfo i task) :
    Sound ((s.touch task).goto t (.unpin (.forEachTask i) false)) := by
  obtain ⟨p, hlive⟩ := hs.holders.living t task (by grind -linarith)
  rw [hs.touch hlive]
  apply hs.goto <;> grind -linarith [Call.slot]

theorem Sound.unpin {c : Config} {call : Call} {woke : Bool} (hs : Sound s)
    (hpc : s.pc t = .unpin call woke) : Sound (s.unpin c t call woke) := by
  have hquiet := Call.next_quiet c call
  unfold State.unpin
  dsimp only
  split
  · rename_i token
    refine ⟨hs.owners.move rfl rfl rfl ?_ ?_ ?_, hs.stages.move rfl rfl rfl rfl rfl rfl ?_,
      hs.holders.move rfl rfl rfl ?_ ?_ ?_ ?_ ?_ ?_ ?_, hs.pinned.unpin rfl rfl ?_ ?_, ?records⟩
    case records =>
      obtain ⟨h1, h2, h3, h4, h5, h6⟩ := hs.records
      constructor <;> dsimp only [State.goto] at * <;> first | assumption | grind -linarith
    all_goals grind -linarith
  · refine ⟨hs.owners.move rfl rfl rfl ?_ ?_ ?_, hs.stages.move rfl rfl rfl rfl rfl rfl ?_,
      hs.holders.move rfl rfl rfl ?_ ?_ ?_ ?_ ?_ ?_ ?_, hs.pinned.unpin rfl rfl ?_ ?_,
      hs.records.move rfl rfl rfl rfl rfl ?_ ?_ ?_⟩
    all_goals grind -linarith

theorem Sound.unpinClaimed {i : ℕ} {task : Ref} (hs : Sound s)
    (hpc : s.pc t = .unpinClaimed i task) :
    Sound ({ s with pins := Function.update s.pins i (s.pins i - 1) }.goto t (.shields i task)) := by
  have hlive := hs.owners.needs t _ _ (by rw [hpc]; rfl)
  refine ⟨hs.owners.move rfl rfl rfl ?_ ?_ ?_, hs.stages.move rfl rfl rfl rfl rfl rfl ?_,
    hs.holders.move rfl rfl rfl ?_ ?_ ?_ ?_ ?_ ?_ ?_, hs.pinned.unpin rfl rfl ?_ ?_,
    hs.records.move rfl rfl rfl rfl rfl ?_ ?_ ?_⟩
  all_goals grind -linarith

/-! ### The reaper -/

theorem Sound.claim {i : ℕ} {task : Ref} (hs : Sound s) (hpc : s.pc t = .claim i task) :
    Sound (s.claim t i task) := by
  obtain ⟨p, hlive⟩ := hs.holders.living t task (by grind -linarith)
  have hslot := hs.holders.slotOf t i task
  unfold State.claim
  rw [hs.touch hlive]
  split_ifs with hparked
  · obtain rfl := hs.stages.parked _ _ _ hlive hparked
    have hwrite := hs.setParkState .running hlive
      (hs.owners.not_releasing hlive (by simp)) (by simp)
    apply hwrite.pass hlive <;> grind -linarith [State.setParkState]
  · apply hs.goto <;> grind -linarith [Call.slot]

theorem Sound.shields {c : Config} {i : ℕ} {task : Ref} {shielded : Bool} (hs : Sound s)
    (hpc : s.pc t = .shields i task) : Sound (s.shields c t i task shielded) := by
  have hlive := hs.owners.needs t _ _ (by rw [hpc]; rfl)
  have hparked := hs.stages.parked _ _ _ hlive
  have hhost := hs.owners.host t
  unfold State.shields
  rw [hs.touch hlive]
  split_ifs
  · apply hs.goto <;> grind -linarith
  · apply hs.put hlive <;> grind -linarith
  · have hput : Sound ({ s.place task (.releasing t) with
        host := Function.update s.host t (s.host t)
        reaping := Function.update s.reaping t (some i) }.goto t (.releaseDone task)) := by
      apply hs.put hlive <;> grind -linarith
    rwa [Function.update_eq_self] at hput

/-- A task is put back: first it has no owner, then its word says so. -/
theorem Sound.putParked {task : Ref} {p : Place θ} (hs : Sound s)
    (hlive : s.use task.slot = .live task.incarnation p)
    (howner : p = .hand t ∨ p = .claimed t) (hquiet : pc.Quiet)
    (hpinned : (s.pc t).pinned = none) (hrelease : (s.pc t).release = none) :
    Sound (((s.setParkState task .parked).place task .parked).goto t pc) := by
  have hplace : Sound ((s.place task .parked).goto t pc) := by
    rcases hquiet with rfl | ⟨i, rfl⟩ | ⟨call, rfl, htoken⟩
    · apply hs.pass hlive <;> grind -linarith
    · apply hs.pass hlive <;> grind -linarith
    · apply hs.pass hlive <;> grind -linarith
  have hnow : ((s.place task .parked).goto t pc).use task.slot = .live task.incarnation .parked :=
    Function.update_self ..
  exact hplace.setParkState .parked hnow (hplace.owners.not_releasing hnow (by simp)) (by simp)

theorem Sound.putBack {c : Config} {i : ℕ} {task : Ref} (hs : Sound s)
    (hpc : s.pc t = .putBack i task) : Sound (s.putBack c t i task) := by
  have hlive := hs.owners.needs t _ _ (by rw [hpc]; rfl)
  unfold State.putBack
  rw [hs.touch hlive]
  split_ifs
  · exact hs.putParked hlive (by simp) (Call.next_quiet c _) (by rw [hpc]; rfl) (by rw [hpc]; rfl)
  · apply hs.goto <;> grind -linarith

/-- A task in hand is `Running` again. -/
theorem Sound.storeRunning {task : Ref} {p : Place θ} (hs : Sound s)
    (hlive : s.use task.slot = .live task.incarnation p)
    (hpc : s.pc t = .parkedStore task ∧ pc = .parkedSchedule task ∨
      ∃ i, s.pc t = .putStore i task ∧ pc = .putSchedule i task) :
    Sound (s.storeRunning t task pc) := by
  have hneeds := hs.owners.needs t
  have hstays : ∀ u, p ≠ .releasing u := by
    rcases hpc with ⟨hstore, -⟩ | ⟨i, hstore, -⟩
    · have := hneeds _ _ (by rw [hstore]; rfl)
      grind -linarith
    · have := hneeds _ _ (by rw [hstore]; rfl)
      grind -linarith
  unfold State.storeRunning
  rw [hs.touch hlive]
  have hwrite := hs.setParkState .running hlive (hs.owners.not_releasing hlive hstays)
    (by simp)
  apply hwrite.goto <;> grind -linarith [State.setParkState]

/-- A task in hand is put into a queue. -/
theorem Sound.schedule {task : Ref} {p : Place θ} (hs : Sound s)
    (hlive : s.use task.slot = .live task.incarnation p) (howner : p = .hand t ∨ p = .claimed t)
    (hquiet : pc.Quiet) (hpinned : (s.pc t).pinned = none) (hrelease : (s.pc t).release = none) :
    Sound (s.schedule t task pc) := by
  have hparked := hs.stages.parked _ _ _ hlive
  unfold State.schedule
  rw [hs.touch hlive]
  rcases hquiet with rfl | ⟨i, rfl⟩ | ⟨call, rfl, htoken⟩
  · apply hs.pass hlive <;> grind -linarith
  · apply hs.pass hlive <;> grind -linarith
  · apply hs.pass hlive <;> grind -linarith

/-! ### Tasks that come and go -/

theorem Sound.createGeneration {slot : ℕ} (hs : Sound s) (hpc : s.pc t = .createGeneration slot) :
    Sound (s.createGeneration t slot) := by
  have huse := hs.owners.needs t slot (.taken t) (by grind -linarith)
  have hnone := hs.stages.task_eq_none slot (by simp [huse])
  have hreleasing := hs.owners.releasing_of
  have hliving := hs.holders.living
  have hhost := hs.owners.host
  unfold State.createGeneration
  refine ⟨hs.owners.change rfl (Function.update_eq_self t s.host).symm rfl ?_ ?_ ?_ ?_ ?_ ?_,
    ?stages, ?holders, hs.pinned.move rfl rfl ?_, hs.records.move rfl rfl rfl rfl rfl ?_ ?_ ?_⟩
  case stages =>
    refine hs.stages.change slot (fun _ hne ↦ Function.update_of_ne hne ..) (fun _ _ ↦ rfl)
      (fun _ _ ↦ rfl) (fun _ hne ↦ ?_) (fun _ hne ↦ ?_)
      (fun _ _ _ _ h ↦ Pc.release_of_update h rfl) ?_
    · dsimp only [State.goto]
      exact update_ref_of_slot_ne hne
    · dsimp only [State.goto, State.setParkState]
      exact update_ref_of_slot_ne hne
    have hbuilding : Function.update s.use slot (.building t (s.generation slot)) slot =
        .building t (s.generation slot) := Function.update_self ..
    refine .of_vacant (fun n p h ↦ nomatch hbuilding.symm.trans h) hnone (fun u n h ↦ ?_)
      (fun m h ↦ ?_) fun u m stage h ↦
        hs.owners.not_release (by simp [huse]) u m stage (Pc.release_of_update h rfl)
    · obtain ⟨rfl, rfl⟩ := Use.building.inj (hbuilding.symm.trans h)
      exact ⟨rfl, Function.update_self .., by simp [State.goto, State.setParkState]⟩
    · rcases eq_or_ne m (s.generation slot) with rfl | hne
      · exact absurd ((Function.update_self ..).symm.trans h) (by simp)
      · exact (hs.stages.at slot).past m (by simpa [State.goto, hne] using h)
  case holders =>
    have hchange : Holders { s with
        use := Function.update s.use slot (.building t (s.generation slot)) } :=
      hs.holders.change rfl rfl rfl (by grind -linarith)
    refine hchange.move rfl rfl rfl ?_ ?_ ?_ ?_ ?_ ?_ ?_ <;> grind -linarith
  all_goals grind -linarith

theorem Sound.createStore {task : Ref} (hs : Sound s) (hpc : s.pc t = .createStore task) :
    Sound ({ s.place task (.hand t) with
      task := Function.update s.task task.slot (some task.incarnation) }.goto t
        (.spawned task)) := by
  have huse := hs.owners.needs t _ _ (by rw [hpc]; rfl)
  have hbuilt := hs.stages.built _ _ _ huse
  have hreleasing := hs.owners.releasing_of
  have hliving := hs.holders.living
  have hhost := hs.owners.host
  refine ⟨hs.owners.change rfl (Function.update_eq_self t s.host).symm rfl ?_ ?_ ?_ ?_ ?_ ?_,
    ?stages, ?holders, hs.pinned.move rfl rfl ?_, hs.records.move rfl rfl rfl rfl rfl ?_ ?_ ?_⟩
  case stages =>
    refine hs.stages.change task.slot (fun _ hne ↦ Function.update_of_ne hne ..)
      (fun _ hne ↦ Function.update_of_ne hne ..) (fun _ _ ↦ rfl) (fun _ _ ↦ rfl) (fun _ _ ↦ rfl)
      (fun _ _ _ _ h ↦ Pc.release_of_update h rfl) ?_
    refine .of_live (Function.update_self ..) (fun m hm ↦ ⟨?_, hbuilt.1⟩)
      (fun _ ↦ Function.update_self ..) hbuilt.2 (hs.stages.at task.slot).past
      (fun u m stage h ↦ ?_) fun h ↦ absurd h (hs.stages.running _ _ _ huse)
    · exact Option.some.inj (hm.symm.trans (Function.update_self ..))
    · exact absurd (Pc.release_of_update h rfl) (hs.owners.not_release (by simp [huse]) u m stage)
  case holders =>
    have hchange : Holders (s.place task (.hand t)) :=
      hs.holders.change rfl rfl rfl (by grind -linarith)
    refine hchange.move rfl rfl rfl ?_ ?_ ?_ ?_ ?_ ?_ ?_ <;> grind -linarith [State.place]
  all_goals grind -linarith

theorem Sound.parkLoad {s' : State θ} (hs : Sound s) (hpc : s.pc t = .parkLoad)
    (hnext : s.parkLoad t = some s') : Sound s' := by
  unfold State.parkLoad at hnext
  split at hnext
  · rename_i task hhost
    have hlive := hs.owners.host t task hhost
    have hparked := hs.stages.parked _ _ _ hlive
    rw [hs.touch hlive] at hnext
    obtain rfl := Option.some.inj hnext
    split_ifs
    · apply hs.goto <;> grind -linarith
    · apply hs.put hlive <;> grind -linarith
  · exact absurd hnext (by simp)

theorem Sound.parkStore {s' : State θ} (hs : Sound s) (hpc : s.pc t = .parkStore)
    (hnext : s.parkStore t = some s') : Sound s' := by
  unfold State.parkStore at hnext
  split at hnext
  · rename_i task hhost
    have hlive := hs.owners.host t task hhost
    rw [hs.touch hlive] at hnext
    obtain rfl := Option.some.inj hnext
    have hwrite := hs.setParkState .running hlive
      (hs.owners.not_releasing hlive (by simp)) (by simp)
    apply hwrite.goto <;> grind -linarith [State.setParkState]
  · exact absurd hnext (by simp)

theorem Sound.parkedSwap {task : Ref} (hs : Sound s) (hpc : s.pc t = .parkedSwap task) :
    Sound (s.parkedSwap t task) := by
  have hlive := hs.owners.needs t _ _ (by rw [hpc]; rfl)
  unfold State.parkedSwap
  rw [hs.touch hlive]
  split_ifs
  · exact hs.putParked hlive (by simp) (.inl rfl) (by grind -linarith) (by grind -linarith)
  · apply hs.goto <;> grind -linarith

/-! ### `releaseTask` -/

theorem Sound.releaseDone {task : Ref} (hs : Sound s) (hpc : s.pc t = .releaseDone task) :
    Sound (((s.touch task).setParkState task .done).goto t (.releaseStore task)) := by
  have hlive := hs.owners.needs t _ _ (by rw [hpc]; rfl)
  have hreleasing := hs.owners.releasing_of
  have hshows := hs.stages.releases t task .entered (by rw [hpc]; rfl)
  rw [hs.touch hlive]
  have hwrite := hs.setParkState .done hlive (by grind -linarith) (by simp)
  have hmarked : ∀ other stage, (Pc.releaseStore task).release = some (other, stage) →
      (s.setParkState task .done).Shows other stage := by
    rintro other stage ⟨⟩
    exact ⟨hshows, State.setParkState_self task .done⟩
  apply hwrite.goto <;> first
    | exact hmarked
    | grind -linarith [State.setParkState]

/-- The releaser changes what its own slot shows. -/
theorem Stages.release {task : Ref} {stage : Stage} (hs : Stages s) (stage' : Stage)
    (howners : Owners s)
    (hbefore : (s.pc t).release = some (task, stage)) (hafter : pc.release = some (task, stage'))
    (htask : s'.task = Function.update s.task task.slot none)
    (hgeneration : ∀ slot, slot ≠ task.slot → s'.generation slot = s.generation slot)
    (hgrows : s.generation task.slot ≤ s'.generation task.slot) (huse : s'.use = s.use)
    (hmemory : s'.memory = s.memory) (hparkState : s'.parkState = s.parkState)
    (hpc : s'.pc = Function.update s.pc t pc) (hshows : s'.Shows task stage') : Stages s' := by
  have hlive := howners.releasing_of t task stage hbefore
  have hold := hs.at task.slot
  refine hs.change task.slot (fun _ _ ↦ congrFun huse _)
    (fun _ hne ↦ by rw [htask, Function.update_of_ne hne]) hgeneration
    (fun _ _ ↦ congrFun hmemory _) (fun _ _ ↦ congrFun hparkState _)
    (fun u other stage hne hstage ↦ ?_) ?_
  · rw [hpc] at hstage
    rcases eq_or_ne u t with rfl | hother
    · rw [Function.update_self, hafter] at hstage
      obtain ⟨rfl, -⟩ := Prod.mk.inj (Option.some.inj hstage)
      exact absurd rfl hne
    · rwa [Function.update_of_ne hother] at hstage
  have hnone : s'.task task.slot = none := by rw [htask, Function.update_self]
  refine .of_live ((congrFun huse _).trans hlive) (fun m hm ↦ nomatch hnone.symm.trans hm)
    (fun hstays ↦ absurd rfl (hstays t)) ((congrFun hmemory _).trans (hold.living _ _ hlive))
    (fun m hm ↦ (hold.past m ((congrFun hmemory _).symm.trans hm)).trans_le hgrows)
    (fun u m stage hstage ↦ ?_)
    fun hparked ↦ hold.parked _ _ hlive ((congrFun hparkState _).symm.trans hparked)
  rw [hpc] at hstage
  rcases eq_or_ne u t with rfl | hother
  · rw [Function.update_self, hafter] at hstage
    obtain ⟨hsame, rfl⟩ := Prod.mk.inj (Option.some.inj hstage)
    exact hsame ▸ hshows
  · rw [Function.update_of_ne hother] at hstage
    exact absurd (howners.releaser_unique hbefore hstage) hother

theorem Sound.releaseStore {task : Ref} (hs : Sound s) (hpc : s.pc t = .releaseStore task) :
    Sound ({ s with task := Function.update s.task task.slot none }.goto t
      (.releaseGeneration task)) := by
  have hlive := hs.owners.needs t _ _ (by rw [hpc]; rfl)
  have hshows := hs.stages.releases t task .marked (by rw [hpc]; rfl)
  refine ⟨hs.owners.move rfl rfl rfl ?_ ?_ ?_,
    hs.stages.release .emptied hs.owners (by rw [hpc]; rfl) rfl rfl (fun _ _ ↦ rfl) le_rfl rfl rfl
      rfl rfl ⟨Function.update_self .., hs.stages.known _ _ hshows.1, hshows.2⟩,
    hs.holders.move rfl rfl rfl ?_ ?_ ?_ ?_ ?_ ?_ ?_, hs.pinned.move rfl rfl ?_,
    hs.records.move rfl rfl rfl rfl rfl ?_ ?_ ?_⟩
  all_goals grind -linarith

theorem Sound.releaseGeneration {task : Ref} (hs : Sound s)
    (hpc : s.pc t = .releaseGeneration task) :
    Sound ({ s with
      generation := Function.update s.generation task.slot (s.generation task.slot + 1) }.goto t
        (.releaseWait task)) := by
  have hlive := hs.owners.needs t _ _ (by rw [hpc]; rfl)
  have hshows := hs.stages.releases t task .emptied (by rw [hpc]; rfl)
  refine ⟨hs.owners.move rfl rfl rfl ?_ ?_ ?_,
    hs.stages.release .waiting hs.owners (by rw [hpc]; rfl) rfl ?_ ?_ ?_ rfl rfl rfl rfl ?_,
    ?holders, hs.pinned.move rfl rfl ?_, hs.records.move rfl rfl rfl rfl rfl ?_ ?_ ?_⟩
  case holders =>
    obtain ⟨h1, h2, h3, h4, h5, h6, h7⟩ := hs.holders
    refine ⟨?_, ?_, ?_, ?_, ?_, ?_, fun u token hload ↦ ?_⟩
    case refine_7 =>
      dsimp only [State.goto] at *
      rcases eq_or_ne token.slot task.slot with heq | hne
      · exact .inr ⟨t, task, heq.symm, Function.update_self ..⟩
      · refine (h7 u token (by grind -linarith)).imp (by grind -linarith) ?_
        rintro ⟨v, other, hslot, hwait⟩
        exact ⟨v, other, hslot, by grind -linarith⟩
    all_goals
      dsimp only [State.goto] at *
      grind -linarith
  · grind -linarith
  · grind -linarith
  · grind -linarith
  · rw [← hshows.1]
    exact (Function.update_eq_self ..).symm
  · intro slot hne
    exact Function.update_of_ne hne ..
  · simp [State.goto]
  · exact ⟨hshows.1, by simp [State.goto, hshows.2.1], hshows.2.2⟩
  all_goals grind -linarith

omit [DecidableEq θ] in
/-- Whoever holds a task is pinned to its slot. -/
theorem Holders.pinned_of_holds (hs : Holders s) (u : θ) (task : Ref)
    (hholds : (s.pc u).holds = some task) : (s.pc u).pinned = some task.slot := by
  have hslot := hs.slot u
  have hslotOf := hs.slotOf u
  cases hpc : s.pc u <;> grind -linarith

theorem Sound.releaseWait {task : Ref} (hs : Sound s) (hpc : s.pc t = .releaseWait task)
    (hpins : s.pins task.slot = 0) : Sound (s.goto t (.releaseFree task)) := by
  have hlive := hs.owners.needs t _ _ (by rw [hpc]; rfl)
  have hshows := hs.stages.releases t task .waiting (by rw [hpc]; rfl)
  have hfree := hs.pinned.free hpins
  have hpinned := hs.holders.pinned_of_holds
  refine ⟨hs.owners.move rfl rfl rfl ?_ ?_ ?_, hs.stages.move rfl rfl rfl rfl rfl rfl ?_, ?holders,
    hs.pinned.move rfl rfl ?_, hs.records.move rfl rfl rfl rfl rfl ?_ ?_ ?_⟩
  case holders =>
    obtain ⟨h1, h2, h3, h4, h5, h6, h7⟩ := hs.holders
    refine ⟨?_, ?_, ?_, ?_, ?_, ?_, fun u token hload ↦ ?_⟩
    case refine_7 =>
      dsimp only [State.goto] at *
      refine (h7 u token (by grind -linarith)).imp id ?_
      rintro ⟨v, other, hslot, hwait⟩
      exact ⟨v, other, hslot, by grind -linarith [Call.slot]⟩
    all_goals
      dsimp only [State.goto] at *
      grind -linarith
  case refine_4 =>
    rintro other stage ⟨⟩
    exact hshows
  all_goals grind -linarith

theorem Sound.releaseFree {task : Ref} (hs : Sound s) (hpc : s.pc t = .releaseFree task) :
    Sound (s.releaseFree t task) := by
  have hlive := hs.owners.needs t _ _ (by rw [hpc]; rfl)
  have hshows := hs.stages.releases t task .freeing (by rw [hpc]; rfl)
  have hreleasing := hs.owners.releasing_of
  have hliving := hs.holders.living
  have hwaited := hs.holders.waited
  have hhost := hs.owners.host
  unfold State.releaseFree
  rw [hs.touch hlive]
  refine ⟨hs.owners.change rfl (Function.update_eq_self t s.host).symm rfl ?_ ?_ ?_ ?_ ?_ ?_,
    ?stages, ?holders, hs.pinned.move rfl rfl ?_, hs.records.move rfl rfl rfl rfl rfl ?_ ?_ ?_⟩
  case stages =>
    refine hs.stages.change task.slot (fun _ hne ↦ Function.update_of_ne hne ..) (fun _ _ ↦ rfl)
      (fun _ _ ↦ rfl) (fun _ ↦ update_ref_of_slot_ne) (fun _ _ ↦ rfl)
      (fun _ _ _ _ h ↦ Pc.release_of_update h rfl) ?_
    have hgone : Function.update s.use task.slot (.gone t) task.slot = .gone t :=
      Function.update_self ..
    refine .of_vacant (fun n p h ↦ nomatch hgone.symm.trans h) hshows.1
      (fun u n h ↦ nomatch hgone.symm.trans h) (fun m h ↦ ?_) fun u m stage h ↦ ?_
    · rcases eq_or_ne m task.incarnation with rfl | hne
      · exact lt_of_lt_of_eq (Nat.lt_succ_self _) hshows.2.1.symm
      · have hother : (⟨task.slot, m⟩ : Ref) ≠ task := fun heq ↦ hne (congrArg Ref.incarnation heq)
        exact (hs.stages.at task.slot).past m ((Function.update_of_ne hother ..).symm.trans h)
    · obtain rfl := hs.owners.releaser_unique (by rw [hpc]; rfl) (Pc.release_of_update h rfl)
      exact absurd h (by simp [State.goto, Pc.release])
  case holders =>
    have hchange : Holders { s with use := Function.update s.use task.slot (.gone t) } :=
      hs.holders.change rfl rfl rfl (by grind -linarith)
    refine hchange.move rfl rfl rfl ?_ ?_ ?_ ?_ ?_ ?_ ?_ <;> grind -linarith
  all_goals grind -linarith

/-! ### The runs -/

theorem Sound.advance {c : Config} {flag : Bool} (hs : Sound s)
    (hnext : s.advance c t flag = some s') : Sound s' := by
  unfold State.advance at hnext
  split at hnext
  case h_1 => exact absurd hnext (by simp)
  case h_21 hpc => exact hs.parkLoad hpc hnext
  case h_22 hpc => exact hs.parkStore hpc hnext
  case h_29 task hpc =>
    split_ifs at hnext with hpins
    obtain rfl := Option.some.inj hnext
    exact hs.releaseWait hpc hpins
  all_goals obtain rfl := Option.some.inj hnext
  case h_2 i hpc =>
    split_ifs
    · exact hs.quiet (Call.next_quiet c _) (by grind -linarith) (by grind -linarith)
    · exact hs.quiet (by grind -linarith) (by grind -linarith) (by grind -linarith)
  case h_3 call hpc => exact hs.pin hpc
  case h_4 token hpc => exact hs.loadGeneration hpc
  case h_5 call hpc => exact hs.loadTask hpc
  case h_6 call task hpc => exact hs.wakeRead (.inl hpc)
  case h_7 call task seen hpc => exact hs.wakeSwap hpc
  case h_8 call task hpc => exact hs.wakeStore hpc
  case h_9 call task hpc => exact hs.wakeSchedule hpc
  case h_10 i task hpc => exact hs.readInfo hpc
  case h_11 i task hpc => exact hs.claim hpc
  case h_12 call woke hpc => exact hs.unpin hpc
  case h_13 i task hpc => exact hs.unpinClaimed hpc
  case h_14 i task hpc => exact hs.shields hpc
  case h_15 i task hpc => exact hs.putBack hpc
  case h_16 i task hpc =>
    have hlive := hs.owners.needs t _ _ (by rw [hpc]; rfl)
    exact hs.storeRunning hlive (.inr ⟨i, hpc, rfl⟩)
  case h_17 i task hpc =>
    have hlive := hs.owners.needs t _ _ (by rw [hpc]; rfl)
    exact hs.schedule hlive (.inr rfl) (Call.next_quiet c _) (by rw [hpc]; rfl) (by rw [hpc]; rfl)
  case h_18 slot hpc => exact hs.createGeneration hpc
  case h_19 task hpc => exact hs.createStore hpc
  case h_20 task hpc =>
    have hlive := hs.owners.needs t _ _ (by rw [hpc]; rfl)
    exact hs.schedule hlive (.inl rfl) (.inl rfl) (by rw [hpc]; rfl) (by rw [hpc]; rfl)
  case h_23 task hpc => exact hs.parkedSwap hpc
  case h_24 task hpc =>
    have hlive := hs.owners.needs t _ _ (by rw [hpc]; rfl)
    exact hs.storeRunning hlive (.inl ⟨hpc, rfl⟩)
  case h_25 task hpc =>
    have hlive := hs.owners.needs t _ _ (by rw [hpc]; rfl)
    exact hs.schedule hlive (.inl rfl) (.inl rfl) (by rw [hpc]; rfl) (by rw [hpc]; rfl)
  case h_26 task hpc => exact hs.releaseDone hpc
  case h_27 task hpc => exact hs.releaseStore hpc
  case h_28 task hpc => exact hs.releaseGeneration hpc
  case h_30 task hpc => exact hs.releaseFree hpc
  case h_31 slot hpc => exact hs.releaseSlot hpc

/-- Staying where one is changes nothing. -/
theorem State.goto_self (hpc : s.pc t = pc) : s.goto t pc = s := by
  subst hpc
  simp [State.goto]

/-- Every step keeps the invariant. -/
theorem Sound.step {c : Config} {a : Action θ} (hs : Sound s) (hnext : s.step c a = some s') :
    Sound s' := by
  cases a with
  | wake t token =>
    simp only [State.step.eq_def, Option.ite_none_right_eq_some, Option.some.injEq] at hnext
    obtain ⟨hidle, rfl⟩ := hnext
    exact hs.wake hidle
  | wakeAllParked t =>
    simp only [State.step.eq_def, Option.ite_none_right_eq_some, Option.some.injEq] at hnext
    obtain ⟨hidle, rfl⟩ := hnext
    exact hs.quiet (by grind -linarith) (by grind -linarith) (by grind -linarith)
  | reapParkedTasks t =>
    simp only [State.step.eq_def, Option.ite_none_right_eq_some, Option.some.injEq] at hnext
    obtain ⟨⟨hidle, hhost⟩, rfl⟩ := hnext
    exact hs.reapParkedTasks hidle
  | forEachTask t =>
    simp only [State.step.eq_def, Option.ite_none_right_eq_some, Option.some.injEq] at hnext
    obtain ⟨hidle, rfl⟩ := hnext
    exact hs.quiet (by grind -linarith) (by grind -linarith) (by grind -linarith)
  | createTask t slot =>
    simp only [State.step.eq_def, State.createTask, Option.ite_none_right_eq_some,
      Option.some.injEq] at hnext
    obtain ⟨⟨hidle, hslot⟩, hfree, rfl⟩ := hnext
    exact hs.createTask hidle hfree
  | abandon t =>
    simp only [State.step.eq_def, State.abandon] at hnext
    split at hnext
    · obtain rfl := Option.some.inj hnext
      exact hs.abandon ‹_›
    · exact absurd hnext (by simp)
  | resume t task =>
    simp only [State.step.eq_def, State.resume, Option.ite_none_right_eq_some,
      Option.some.injEq] at hnext
    obtain ⟨hidle, ⟨hhost, hlive⟩, rfl⟩ := hnext
    have hresume := hs.resume hidle hlive
    rwa [State.goto_self (by exact hidle)] at hresume
  | park t =>
    simp only [State.step.eq_def, Option.ite_none_right_eq_some, Option.some.injEq] at hnext
    obtain ⟨⟨hidle, hhost⟩, rfl⟩ := hnext
    apply hs.goto <;> grind -linarith
  | yield t =>
    simp only [State.step.eq_def, State.leave, Option.ite_none_right_eq_some] at hnext
    obtain ⟨hidle, hnext⟩ := hnext
    split at hnext
    · obtain rfl := Option.some.inj hnext
      exact hs.leave hidle ‹_› (.inl ⟨rfl, rfl⟩)
    · exact absurd hnext (by simp)
  | finish t =>
    simp only [State.step.eq_def, State.leave, Option.ite_none_right_eq_some] at hnext
    obtain ⟨hidle, hnext⟩ := hnext
    split at hnext
    · obtain rfl := Option.some.inj hnext
      exact hs.leave hidle ‹_› (.inr ⟨rfl, rfl⟩)
    · exact absurd hnext (by simp)
  | advance t flag => exact hs.advance hnext

omit [DecidableEq θ] in
/-- What the invariant gives. -/
theorem Sound.contract (hs : Sound s) : s.Contract := by
  refine ⟨hs.records.acts, hs.records.results, fun t task hpc ↦ ?_, fun task hfreed ↦ ?_,
    hs.records.noFault⟩
  · have hshows := hs.stages.releases t task .freeing (by rw [hpc]; rfl)
    exact ⟨fun u hholds ↦ hs.holders.waited u t task hholds hpc, by rw [hshows.1]; simp⟩
  · refine ⟨fun u hholds ↦ ?_, fun htask ↦ ?_, hs.stages.past task hfreed⟩
    · obtain ⟨p, hlive⟩ := hs.holders.living u task hholds
      have hbuilt := hs.stages.living _ _ _ hlive
      exact absurd (hbuilt.symm.trans hfreed) (by simp)
    · obtain ⟨p, hlive⟩ := hs.stages.registered _ _ htask
      have hbuilt := hs.stages.living _ _ _ hlive
      exact absurd (hbuilt.symm.trans hfreed) (by simp)

end

/-- Wake tokens reach their own task and no other, and no task is freed under a pinned caller, in
every state of every run of any number of threads. -/
theorem wake_reaches_own_task [DecidableEq θ] (c : Config) (s : State θ)
    (hs : (system c).Reachable s) : s.Contract := by
  have hsound : Sound s := by
    refine hs.invariant (fun s hinit ↦ ?_) fun _ _ _ hsound hnext ↦ hsound.step hnext
    obtain rfl : s = initial := hinit
    exact sound_initial
  exact hsound.contract

/-- The next access of a thread. -/
def next (t : Bool) : Action Bool :=
  .advance t false

/-- A task is created and parks; a token wakes it; it runs to its end, another task takes the slot,
and the token is used once more. -/
def staleToken : State Bool :=
  ((system ⟨1, true⟩).run initial
    ([Action.createTask false 0, next false, next false, next false, .resume true ⟨0, 0⟩,
      .park true, next true, next true, .wake false ⟨true, 0, 0⟩] ++
      List.replicate 8 (next false) ++
      [Action.resume true ⟨0, 0⟩, .finish true] ++ List.replicate 6 (next true) ++
      [Action.createTask true 0, next true, next true, next true, .wake false ⟨true, 0, 0⟩] ++
      List.replicate 3 (next false))).get (by decide)

theorem wake_reaches_own_task_staleToken :
    staleToken.Contract ∧
      staleToken.results = [⟨⟨true, 0, 0⟩, true, [⟨0, 0⟩]⟩, ⟨⟨true, 0, 0⟩, false, []⟩] :=
  ⟨wake_reaches_own_task ⟨1, true⟩ staleToken
    (System.reachable_of_run rfl (Option.some_get _).symm), by decide⟩

end Stackfull.Sched.Slots
