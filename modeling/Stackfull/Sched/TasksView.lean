import Stackfull.Lib.Located
import Stackfull.Sched.Tasks

/-!
# Where tasks are, and the abstract machine of one task

`Place` lists the places a task can be in: on a worker, in an agent's hand at some stage of an
operation, or in a container; `State.contents` reads them off the state. `View` is what matters
about a single task, `Transition` is the abstract machine of a task, and `View.Ok` the invariant of
that machine.

`Tracked` is the refinement: some map gives every task its one place, and the view of every task is
as the machine allows. It is kept when a batch moves between containers, when nothing moves, and
when one task makes a transition.
-/

set_option autoImplicit false
set_option relaxedAutoImplicit false
set_option linter.dupNamespace false

namespace Stackfull.Sched.Tasks

open Stackfull.Lib

universe u v

variable {n : ℕ} {κ : Type u} {τ : Type v}

/-! ### Places -/

/-- The places of tasks. The hand of an agent is divided by what is to become of the task: it is on
its way to sleep or was claimed by the reaper (`parking`), it was woken (`stirring`), it is to be
scheduled (`pending`), it is between containers (`moving`), or it has yielded or ended
(`leaving`). -/
inductive Place (n : ℕ) (κ : Type u)
  | running (worker : Fin n)
  | parking (agent : Agent n κ)
  | stirring (agent : Agent n κ)
  | pending (agent : Agent n κ)
  | moving (agent : Agent n κ)
  | leaving (agent : Agent n κ)
  | lifoSlot (worker : Fin n)
  | queue (worker : Fin n)
  | inbox (worker : Fin n)
  | gathered (worker : Fin n)
  | injection
  deriving DecidableEq

/-- The kinds of places. -/
inductive Kind
  | running
  | parking
  | stirring
  | pending
  | leaving
  | queued
  deriving DecidableEq

def Place.kind : Place n κ → Kind
  | .running _ => .running
  | .parking _ => .parking
  | .stirring _ => .stirring
  | .pending _ => .pending
  | .leaving _ => .leaving
  | _ => .queued

def Op.parking : Op τ → List τ
  | .arrived .parked task => [task]
  | .reapShields task => [task]
  | .reapPutBack task => [task]
  | _ => []

def Op.stirring : Op τ → List τ
  | .wakeStore task => [task]
  | .parkedStore task => [task]
  | .reapStore task => [task]
  | _ => []

def Op.pending : Op τ → List τ
  | .schedule task => [task]
  | _ => []

def Op.moving : Op τ → List τ
  | .pushLifo task => [task]
  | .pushFifo task slot => task :: slot.toList
  | .overflow task slot => task :: slot.toList
  | .inject tasks slot => tasks ++ slot.toList
  | .restock tasks => tasks
  | .found task => [task]
  | .switch _ next => next.toList
  | _ => []

def Op.leaving : Op τ → List τ
  | .arrived .yielded task => [task]
  | .arrived .finished task => [task]
  | .release task => [task]
  | _ => []

def After.moving : After τ → List τ
  | .found task => [task]
  | .place tasks _ kept => tasks ++ kept.toList
  | .releasing _ next => next.toList
  | _ => []

def After.leaving : After τ → List τ
  | .releasing task _ => [task]
  | _ => []

/-- The tasks in a place. -/
def State.contents (s : State n κ τ) : Place n κ → List τ
  | .running w => (s.current w).toList
  | .parking a => (s.op a).parking
  | .stirring a => (s.op a).stirring
  | .pending a => (s.op a).pending
  | .moving a => (s.op a).moving ++ (s.after a).moving
  | .leaving a => (s.op a).leaving ++ (s.after a).leaving
  | .lifoSlot w => (s.lifoSlot w).toList
  | .queue w => s.queue w
  | .inbox w => s.inbox w
  | .gathered w => s.gathered w
  | .injection => s.injection

/-! ### The abstract machine of a task -/

/-- What matters about one task. -/
structure View where
  kind : Option Kind
  parkState : TaskState
  published : Bool
  made : ℕ
  scheduled : ℕ
  resumed : ℕ
  owed : Bool
  parking : Bool

/-- What matters about a task in a place of this kind. -/
def State.view (s : State n κ τ) (kind : Option Kind) (x : τ) : View where
  kind := kind
  parkState := s.parkState x
  published := s.published x
  made := s.history.made x
  scheduled := s.history.scheduled x
  resumed := s.history.resumed x
  owed := s.history.owed x
  parking := s.history.parking x

/-- What can happen to a task. -/
inductive Transition (v : View) : View → Prop
  | notify (hstate : v.parkState = .running) :
      Transition v { v with parkState := .notified, owed := true }
  | notifyAgain (hstate : v.parkState = .notified) : Transition v { v with owed := true }
  | consume (hkind : v.kind = some .running) :
      Transition v { v with parkState := .running, owed := false }
  | spawn (hpublished : v.published = false) (hstate : v.parkState ≠ .done) :
      Transition v { v with
        kind := some .pending
        parkState := .running
        published := true
        made := v.made + 1
        owed := false
        parking := false }
  | rouse (hstate : v.parkState = .parked) :
      Transition v { v with
        kind := some .stirring
        parkState := .notified
        made := v.made + 1
        owed := true }
  | settle (hkind : v.kind = some .stirring) :
      Transition v { v with kind := some .pending, parkState := .running }
  | schedule (hkind : v.kind = some .pending) :
      Transition v { v with kind := some .queued, scheduled := v.scheduled + 1 }
  | yield (hkind : v.kind = some .leaving) :
      Transition v { v with
        kind := some .queued
        made := v.made + 1
        scheduled := v.scheduled + 1 }
  | resume (hkind : v.kind = some .queued) :
      Transition v { v with
        kind := some .running
        resumed := v.resumed + 1
        owed := v.owed && !v.parking
        parking := false }
  | park (hkind : v.kind = some .running) :
      Transition v { v with kind := some .parking, parking := true }
  | depart (hkind : v.kind = some .running) : Transition v { v with kind := some .leaving }
  | sleep (hkind : v.kind = some .parking) (hstate : v.parkState = .running) :
      Transition v { v with kind := none, parkState := .parked }
  | awaken (hkind : v.kind = some .parking) (hstate : v.parkState ≠ .running) :
      Transition v { v with kind := some .stirring, made := v.made + 1 }
  | claim (hstate : v.parkState = .parked) :
      Transition v { v with kind := some .parking, parkState := .running }
  | unwind (hkind : v.kind = some .parking) :
      Transition v { v with
        kind := some .running
        owed := v.owed && !v.parking
        parking := false }
  | drop (hkind : v.kind = some .parking) : Transition v { v with kind := some .leaving }
  | release (hkind : v.kind = some .leaving) :
      Transition v { v with kind := none, parkState := .done, published := false }

/-- What holds of a task in every reachable state. -/
structure View.Ok (v : View) : Prop where
  asleep : v.parkState = .parked ↔ v.published = true ∧ v.kind = none
  dead : v.published = false → v.kind = none
  live : v.published = true → v.parkState ≠ .done
  made : v.made = v.scheduled +
    if v.kind = some .stirring ∨ v.kind = some .pending then 1 else 0
  scheduled : v.scheduled = v.resumed + if v.kind = some .queued then 1 else 0
  slept : v.kind = some .parking ∨ v.kind = some .stirring ∨ v.parkState = .parked →
    v.parking = true
  stirring : v.kind = some .stirring → v.parkState = .notified
  owed : v.owed = true → v.parkState = .notified ∨ v.parkState = .done ∨
    ((v.kind = some .pending ∨ v.kind = some .queued) ∧ v.parking = true)

attribute [mk_iff] View.Ok

theorem View.Ok.transition {v v' : View} (hv : v.Ok) (h : Transition v v') : v'.Ok := by
  obtain ⟨hasleep, hdead, hlive, hmade, hscheduled, hslept, hstirring, howed⟩ := hv
  cases h with
  | awaken hkind hstate =>
    have hnotified : v.parkState = .notified := by
      cases hword : v.parkState <;> grind -linarith
    rw [View.ok_iff]
    dsimp only
    grind -linarith
  | _ =>
    rw [View.ok_iff]
    dsimp only
    grind -linarith

/-! ### Refinement -/

/-- Every task is in one place, and its view is as the abstract machine allows. -/
structure Tracked (s : State n κ τ) [DecidableEq κ] [DecidableEq τ]
    (place : τ → Option (Place n κ)) : Prop where
  located : Located s.contents place
  ok : ∀ x, (s.view ((place x).map Place.kind) x).Ok

variable [DecidableEq κ] [DecidableEq τ] {s t : State n κ τ} {place : τ → Option (Place n κ)}

/-- A task that takes its token and goes on, or that leaves `park` without having been woken. -/
def Unusual (v v' : View) : Prop :=
  (v.kind = some .running ∧ v'.kind = some .running ∧ v.parkState = .notified ∧
      v'.parkState = .running) ∨
    (v.kind = some .parking ∧ (v'.kind = some .running ∨ v'.kind = some .leaving))

theorem not_unusual {v v' : View} (hkind : v'.kind = v.kind) (hstate : v'.parkState ≠ .running) :
    ¬ Unusual v v' := by
  rintro (⟨-, -, -, hrunning⟩ | ⟨hparking, hleft⟩)
  · exact hstate hrunning
  · simp [hkind, hparking] at hleft

/-- Why a step does something unusual to a task: the reaper unwinds or drops it, or its `park` takes
a token and returns. -/
def Cause (s t : State n κ τ) (x : τ) : Prop :=
  ∃ w, s.op (.worker w) = .reapShields x ∨
    s.op (.worker w) = .parkStore ∧ s.current w = some x ∧ t.current = s.current ∧
      t.op (.worker w) = (s.after (.worker w)).next

/-- What a step does to a task: nothing, or a transition of its machine, and something unusual only
for a cause. -/
structure Evolves (s t : State n κ τ) (place place' : τ → Option (Place n κ)) (x : τ) : Prop where
  view : t.view ((place' x).map Place.kind) x = s.view ((place x).map Place.kind) x ∨
    Transition (s.view ((place x).map Place.kind) x) (t.view ((place' x).map Place.kind) x)
  cause : Unusual (s.view ((place x).map Place.kind) x) (t.view ((place' x).map Place.kind) x) →
    Cause s t x

/-- After a step every task is in one place, which it may have reached by a transition. -/
def Next (s : State n κ τ) (place : τ → Option (Place n κ)) (t : State n κ τ) : Prop :=
  ∃ place', Tracked t place' ∧ ∀ x, Evolves s t place place' x

omit [DecidableEq κ] [DecidableEq τ] in
/-- Nothing happens to a task. -/
theorem Evolves.refl {place' : τ → Option (Place n κ)} {x : τ}
    (h : t.view ((place' x).map Place.kind) x = s.view ((place x).map Place.kind) x) :
    Evolves s t place place' x := by
  refine ⟨Or.inl h, fun hunusual ↦ ?_⟩
  rw [h] at hunusual
  rcases hunusual with ⟨-, -, hnotified, hrunning⟩ | ⟨hparking, hleft⟩
  · rw [hnotified] at hrunning
    nomatch hrunning
  · simp [hparking] at hleft

/-- A batch moves between containers and hands on their way to one. -/
theorem Tracked.move (hs : Tracked s place) (p q : Place n κ) (xs : List τ)
    (hmem : ∀ x ∈ xs, x ∈ s.contents p)
    (hcount : ∀ r x, (t.contents r).count x + (if r = p then xs.count x else 0) =
      (s.contents r).count x + (if r = q then xs.count x else 0))
    (hp : p.kind = .queued) (hq : q.kind = .queued)
    (hsame : ∀ kind x, t.view kind x = s.view kind x) : Next s place t := by
  have hview (x : τ) : t.view (((if x ∈ xs then some q else place x)).map Place.kind) x =
      s.view ((place x).map Place.kind) x := by
    rw [hsame]
    by_cases hx : x ∈ xs
    · have hplace := hs.located.mem_iff.mp (hmem x hx)
      simp [hx, hplace, hp, hq]
    · simp [hx]
  refine ⟨_, ⟨hs.located.shift ⟨hmem, hcount⟩, fun x ↦ ?_⟩, fun x ↦ .refl (hview x)⟩
  rw [hview]
  exact hs.ok x

/-- Nothing moves. -/
theorem Tracked.still (hs : Tracked s place)
    (hcontents : ∀ p x, (t.contents p).count x = (s.contents p).count x)
    (hsame : ∀ kind x, t.view kind x = s.view kind x) : Next s place t := by
  refine ⟨place, ⟨fun p x ↦ ?_, fun x ↦ hsame _ _ ▸ hs.ok x⟩, fun x ↦ .refl (hsame _ _)⟩
  rw [hcontents]
  exact hs.located p x

/-- One task makes a transition. -/
theorem Tracked.one (hs : Tracked s place) (x : τ) (old new : Option (Place n κ))
    (hplace : place x = old) (hshift : ShiftOne s.contents t.contents old new x)
    (hothers : ∀ kind y, y ≠ x → t.view kind y = s.view kind y) {v : View}
    (htransition : Transition (s.view (old.map Place.kind) x) v)
    (hview : t.view (new.map Place.kind) x = v)
    (hcause : Unusual (s.view (old.map Place.kind) x) v → Cause s t x) : Next s place t := by
  subst hplace hview
  refine ⟨_, ⟨hs.located.shiftOne hshift, fun y ↦ ?_⟩, fun y ↦ ?_⟩
  · by_cases hy : y = x
    · subst hy
      simpa using (hs.ok y).transition htransition
    · simpa [hy, hothers _ y hy] using hs.ok y
  · by_cases hy : y = x
    · subst hy
      refine ⟨Or.inr ?_, ?_⟩
      · simpa using htransition
      · simpa using hcause
    · refine .refl ?_
      simp [hy, hothers _ y hy]

end Stackfull.Sched.Tasks
