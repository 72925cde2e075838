import Stackfull.Lib.Transition

/-!
# Joining a task

`JoinHandle` (`JoinHandle.cpp`), `JoinState` (`JoinState.h`) and the part of `releaseTask` with
`finishJoin` (`SchedulerCore.cpp`). Every access to a shared word is one step. The task's side
stores `done` and then reads `waiterKind`, the handle's side writes `waiterKind` and then reads
`done`; all four are sequentially consistent, so one of the two sees the other.

The handle belongs to one party at a time, which may call `isDone`, `detach` or `join`, from a task
or from a thread. `token` is what its `park` waits for: a wake sets it and a return of `park` clears
it. A wake by anyone else may set it too, also before the call, and `park` may return for no reason.
A forced unwinding leaves `join` at its `park` with the handle as it was.

`escaped`, `calls`, `joins`, `freed` and `stray` are not in the code: the exception that left the
body, how often `join` was called, what its calls that have returned have rethrown, how often the
state was deleted, and whether it was accessed after that. A waiter is stored as the number of its
call.
-/

set_option autoImplicit false
set_option relaxedAutoImplicit false
set_option linter.dupNamespace false

namespace Stackfull.Sched.JoinHandle

open Stackfull.Lib

universe u

/-- `kTaskWaiter` and `kThreadWaiter`. -/
inductive Joiner
  | task
  | thread
  deriving DecidableEq, Repr

/-- Where the task stands: in its body, in `releaseTask` and `finishJoin`, in `release` before the
`delete`, and after all that. -/
inductive TaskPc
  | running
  | releasing
  | storeDone
  | loadKind
  | wake (joiner : Joiner)
  | release
  | delete
  | gone
  deriving DecidableEq, Repr

/-- Where the handle stands: with nothing to do, in `join`, in `detach` (with what a `join` is going
to rethrow), or empty. -/
inductive HandlePc (χ : Type u)
  | holding
  | loadDone (joiner : Joiner)
  | setWaiter (joiner : Joiner)
  | storeKind (joiner : Joiner)
  | check (joiner : Joiner)
  | parked (joiner : Joiner)
  | collect
  | release (result : Option (Option χ))
  | delete (result : Option (Option χ))
  | empty
  deriving DecidableEq, Repr

/-- The `JoinState`, both sides, and the sink for unhandled exceptions. -/
structure State (χ : Type u) where
  refs : ℕ
  done : Bool
  waiterKind : Option Joiner
  waiter : Joiner → Option ℕ
  exception : Option χ
  task : TaskPc
  handle : HandlePc χ
  token : Bool
  sink : List χ
  escaped : Option χ
  calls : ℕ
  joins : List (Option χ)
  freed : ℕ
  stray : Bool

/-- A step: the body ends, the task goes on, the owner of the handle begins a call or goes on in it,
somebody else wakes the joiner, its `park` returns for no reason, or it is unwound. -/
inductive Action (χ : Type u)
  | finish (escaped : Option χ)
  | task
  | isDone
  | detach
  | join (joiner : Joiner) (stale : Bool)
  | handle
  | staleWake
  | spurious
  | unwind
  deriving DecidableEq

variable {χ : Type u}

/-- `spawnJoinable` has returned the handle; or `spawn` has, which has none. -/
def initial (joinable : Bool) : State χ where
  refs := if joinable then 2 else 0
  done := false
  waiterKind := none
  waiter := fun _ ↦ none
  exception := none
  task := .running
  handle := if joinable then .holding else .empty
  token := false
  sink := []
  escaped := none
  calls := 0
  joins := []
  freed := 0
  stray := false

namespace State

/-- The `JoinState` is accessed. -/
def touch (s : State χ) : State χ := { s with stray := s.stray || decide (0 < s.freed) }

/-- The task's side goes on. -/
def stepTask (joinable : Bool) (s : State χ) : Option (State χ) :=
  match s.task with
  | .running => none
  | .releasing =>
    if joinable then some { s.touch with exception := s.escaped, task := .storeDone }
    else some { s with sink := s.sink ++ s.escaped.toList, task := .gone }
  | .storeDone => some { s.touch with done := true, task := .loadKind }
  | .loadKind => some { s.touch with task := s.waiterKind.elim .release .wake }
  | .wake joiner =>
    some { s.touch with
      token := s.token || decide (s.waiter joiner = some s.calls)
      task := .release }
  | .release =>
    some { s.touch with refs := s.refs - 1, task := if s.refs = 1 then .delete else .gone }
  | .delete => some { s.touch with freed := s.freed + 1, task := .gone }
  | .gone => none

/-- A call on the handle is over. -/
def leave (s : State χ) (result : Option (Option χ)) : State χ :=
  { s with handle := .empty, joins := s.joins ++ result.toList }

/-- The handle's side goes on. A thread's parker is new. -/
def stepHandle (s : State χ) : Option (State χ) :=
  match s.handle with
  | .holding => none
  | .loadDone joiner =>
    some { s.touch with handle := if s.done then .collect else .setWaiter joiner }
  | .setWaiter joiner =>
    some { s.touch with
      waiter := Function.update s.waiter joiner (some s.calls)
      token := s.token && decide (joiner = .task)
      handle := .storeKind joiner }
  | .storeKind joiner => some { s.touch with waiterKind := some joiner, handle := .check joiner }
  | .check joiner => some { s.touch with handle := if s.done then .collect else .parked joiner }
  | .parked joiner =>
    if s.token then some { s with token := false, handle := .check joiner } else none
  | .collect =>
    some { s.touch with exception := none, handle := .release (some s.exception) }
  | .release result =>
    let after := { s.touch with refs := s.refs - 1 }
    some (if s.refs = 1 then { after with handle := .delete result } else after.leave result)
  | .delete result => some ({ s.touch with freed := s.freed + 1 }.leave result)
  | .empty => none

end State

/-- One step. A `join` on an empty handle aborts. -/
def step (joinable : Bool) (s : State χ) : Action χ → Option (State χ)
  | .finish escaped =>
    if s.task = .running then some { s with task := .releasing, escaped := escaped } else none
  | .task => s.stepTask joinable
  | .isDone =>
    match s.handle with
    | .holding => some s.touch
    | _ => none
  | .detach =>
    match s.handle with
    | .holding => some { s with handle := .release none }
    | _ => none
  | .join joiner stale =>
    match s.handle with
    | .holding => some { s with handle := .loadDone joiner, calls := s.calls + 1, token := stale }
    | _ => none
  | .handle => s.stepHandle
  | .staleWake => some { s with token := true }
  | .spurious =>
    match s.handle with
    | .parked joiner => some { s with handle := .check joiner }
    | _ => none
  | .unwind =>
    match s.handle with
    | .parked .task => some { s with handle := .holding }
    | _ => none

/-- A task and its handle under every order of steps. -/
def system (χ : Type u) (joinable : Bool) : System (State χ) (Action χ) where
  init s := s = initial joinable
  step := step joinable

/-! ### The invariant -/

/-- The task has its reference. -/
def TaskPc.owns : TaskPc → Bool
  | .delete | .gone => false
  | _ => true

/-- The task has stored `done`. -/
def TaskPc.isDone : TaskPc → Bool
  | .running | .releasing | .storeDone => false
  | _ => true

/-- The task has stored what escaped it. -/
def TaskPc.hasStored : TaskPc → Bool
  | .running | .releasing => false
  | _ => true

/-- The task is going to look for a joiner, or to wake this one. -/
def TaskPc.attends (joiner : Joiner) : TaskPc → Bool
  | .running | .releasing | .storeDone | .loadKind => true
  | .wake other => joiner = other
  | _ => false

namespace HandlePc

/-- The handle has its reference. -/
def owns : HandlePc χ → Bool
  | .delete _ | .empty => false
  | _ => true

/-- The handle is deleting the state. -/
def deletes : HandlePc χ → Bool
  | .delete _ => true
  | _ => false

/-- What a call of `join` is going to rethrow, once it knows. -/
def result : HandlePc χ → Option (Option χ)
  | .release result | .delete result => result
  | _ => none

/-- The joiner that has announced itself. -/
def joiner : HandlePc χ → Option Joiner
  | .check joiner | .parked joiner => some joiner
  | _ => none

end HandlePc

/-- How the two sides stand to each other. -/
structure Sound (s : State χ) : Prop where
  refs : s.refs = s.task.owns.toNat + s.handle.owns.toNat
  deleting : s.task = .delete → s.handle.owns = false ∧ s.handle.deletes = false
  deleting' : s.handle.deletes = true → s.task = .gone
  freed : s.freed =
    if s.task = .gone ∧ s.handle.owns = false ∧ s.handle.deletes = false then 1 else 0
  stray : s.stray = false
  done : s.done = s.task.isDone
  announced : ∀ joiner, s.handle.joiner = some joiner →
    s.waiterKind = some joiner ∧ s.waiter joiner = some s.calls
  registered : ∀ joiner, s.handle = .storeKind joiner → s.waiter joiner = some s.calls
  asleep : ∀ joiner, s.handle = .parked joiner → s.token = false → s.task.attends joiner = true
  collecting : s.handle = .collect → s.done = true
  stored : s.task.hasStored = true → s.handle.result = none → s.joins = [] →
    s.exception = s.escaped
  collected : ∀ result, s.handle.result = some result → s.done = true ∧ result = s.escaped
  joined : s.joins = [] ∨ s.handle = .empty ∧ s.done = true ∧ s.joins = [s.escaped]
  sink : s.sink = []

variable {s t : State χ}

theorem sound_initial : Sound (initial true : State χ) := by
  constructor <;> simp [initial, TaskPc.owns, TaskPc.isDone, TaskPc.hasStored, HandlePc.owns,
    HandlePc.deletes, HandlePc.result, HandlePc.joiner]

attribute [local grind] TaskPc.owns TaskPc.isDone TaskPc.hasStored TaskPc.attends HandlePc.owns
  HandlePc.deletes HandlePc.result HandlePc.joiner State.touch State.leave

/-- Before it stores `done`, the task still has to look for a joiner. -/
theorem TaskPc.attends_of_not_isDone {pc : TaskPc} (joiner : Joiner) (h : pc.isDone = false) :
    pc.attends joiner = true := by
  cases pc <;> first | rfl | exact (nomatch h)

/-- What escaped is stored before `done`. -/
theorem TaskPc.hasStored_of_isDone {pc : TaskPc} (h : pc.isDone = true) :
    pc.hasStored = true := by
  cases pc <;> first | rfl | exact (nomatch h)

/-- The first `join` to return is the last. -/
theorem Sound.joins_eq_nil (hs : Sound s) (h : s.handle ≠ .empty) : s.joins = [] :=
  hs.joined.resolve_right fun hjoined ↦ h hjoined.1

/-- What a `join` collects once it has seen `done` is what escaped the body. -/
theorem Sound.exception_eq (hs : Sound s) (h : s.handle = .collect) : s.exception = s.escaped := by
  refine hs.stored (TaskPc.hasStored_of_isDone (hs.done ▸ hs.collecting h)) ?_
    (hs.joins_eq_nil (h ▸ (nomatch ·)))
  rw [h]
  rfl

theorem TaskPc.eq_gone {pc : TaskPc} (howns : pc.owns = false) (hdelete : pc ≠ .delete) :
    pc = .gone := by
  cases pc <;> first | rfl | exact absurd rfl hdelete | cases howns

theorem Sound.not_gone (hs : Sound s) (howns : s.task.owns = true) :
    s.task ≠ .gone ∧ s.freed = 0 ∧ s.handle.deletes = false := by
  have hgone : s.task ≠ .gone := by
    intro heq
    rw [heq] at howns
    cases howns
  exact ⟨hgone, by rw [hs.freed, if_neg fun h ↦ hgone h.1],
    Bool.eq_false_iff.mpr fun h ↦ hgone (hs.deleting' h)⟩

/-- The task goes on and keeps its reference. -/
theorem Sound.works (hs : Sound s) (howns : s.task.owns = true) (howns' : t.task.owns = true)
    (hhandle : t.handle = s.handle) (hrefs : t.refs = s.refs) (hkind : t.waiterKind = s.waiterKind)
    (hwaiter : t.waiter = s.waiter) (hcalls : t.calls = s.calls) (hescaped : t.escaped = s.escaped)
    (hjoins : t.joins = s.joins) (hsink : t.sink = s.sink) (hfreed : t.freed = s.freed)
    (hstray : t.stray = s.touch.stray) (hdone : t.done = t.task.isDone)
    (hstays : s.done = true → t.done = true)
    (hasleep : ∀ joiner, s.handle = .parked joiner → t.token = false →
      t.task.attends joiner = true)
    (hstored : t.task.hasStored = true → t.exception = s.escaped ∨
      s.task.hasStored = true ∧ t.exception = s.exception) : Sound t := by
  obtain ⟨-, hnothing, hkept⟩ := hs.not_gone howns
  have hrunning : t.task ≠ .gone ∧ t.task ≠ .delete := by
    constructor <;>
    · intro heq
      rw [heq] at howns'
      cases howns'
  constructor
  case refs => rw [hrefs, hhandle, howns', ← howns, hs.refs]
  case deleting => exact fun hdelete ↦ absurd hdelete hrunning.2
  case deleting' =>
    rw [hhandle, hkept]
    exact nofun
  case freed => rw [hfreed, hnothing, if_neg fun h ↦ hrunning.1 h.1]
  case stray =>
    rw [hstray, State.touch, hs.stray, hnothing]
    rfl
  case done => exact hdone
  case announced =>
    rw [hhandle, hkind, hwaiter, hcalls]
    exact hs.announced
  case registered =>
    rw [hhandle, hwaiter, hcalls]
    exact hs.registered
  case asleep =>
    rw [hhandle]
    exact hasleep
  case collecting =>
    rw [hhandle]
    exact fun hcollect ↦ hstays (hs.collecting hcollect)
  case stored =>
    rw [hhandle, hjoins, hescaped]
    intro hstores hresult hnil
    rcases hstored hstores with heq | ⟨hbefore, heq⟩
    · exact heq
    · exact heq.trans (hs.stored hbefore hresult hnil)
  case collected =>
    rw [hhandle, hescaped]
    exact fun result hresult ↦ (hs.collected result hresult).imp_left hstays
  case joined =>
    rw [hhandle, hjoins, hescaped]
    exact hs.joined.imp_right fun ⟨hempty, hdone', heq⟩ ↦ ⟨hempty, hstays hdone', heq⟩
  case sink => rw [hsink, hs.sink]

theorem sound_task (hs : Sound s) (h : s.stepTask true = some t) : Sound t := by
  cases hpc : s.task <;>
    simp only [State.stepTask, hpc, Option.some.injEq, reduceCtorEq, if_true] at h
  case releasing =>
    subst h
    exact hs.works (by rw [hpc]; rfl) rfl rfl rfl rfl rfl rfl rfl rfl rfl rfl rfl
      (hs.done.trans (by rw [hpc]; rfl)) id (fun _ _ _ ↦ rfl) fun _ ↦ Or.inl rfl
  case storeDone =>
    subst h
    exact hs.works (by rw [hpc]; rfl) rfl rfl rfl rfl rfl rfl rfl rfl rfl rfl rfl rfl (fun _ ↦ rfl)
      (fun _ _ _ ↦ rfl) fun _ ↦ Or.inr ⟨by rw [hpc]; rfl, rfl⟩
  case loadKind =>
    subst h
    have hdone : s.done = true := by
      rw [hs.done, hpc]
      rfl
    -- A joiner that sleeps has announced itself, so the word names it.
    have hannounced : ∀ joiner, s.handle = .parked joiner → s.waiterKind = some joiner :=
      fun joiner hparked ↦ (hs.announced joiner (by rw [hparked]; rfl)).1
    cases hkind : s.waiterKind with
    | none =>
      refine hs.works (by rw [hpc]; rfl) rfl rfl rfl rfl rfl rfl rfl rfl rfl rfl rfl hdone id
        (fun joiner hparked _ ↦ ?_) fun _ ↦ Or.inr ⟨by rw [hpc]; rfl, rfl⟩
      exact absurd (hkind.symm.trans (hannounced joiner hparked)) (nomatch ·)
    | some joiner =>
      refine hs.works (by rw [hpc]; rfl) rfl rfl rfl rfl rfl rfl rfl rfl rfl rfl rfl hdone id
        (fun other hparked _ ↦ ?_) fun _ ↦ Or.inr ⟨by rw [hpc]; rfl, rfl⟩
      obtain rfl : joiner = other :=
        Option.some.inj (hkind.symm.trans (hannounced other hparked))
      exact decide_eq_true rfl
  case wake joiner =>
    subst h
    have hdone : s.done = true := by
      rw [hs.done, hpc]
      rfl
    refine hs.works (by rw [hpc]; rfl) rfl rfl rfl rfl rfl rfl rfl rfl rfl rfl rfl hdone id
      (fun other hparked htoken ↦ ?_) fun _ ↦ Or.inr ⟨by rw [hpc]; rfl, rfl⟩
    obtain ⟨htoken, hcalls⟩ := Bool.or_eq_false_iff.mp htoken
    have hattends := hs.asleep other hparked htoken
    rw [hpc] at hattends
    obtain rfl : other = joiner := of_decide_eq_true hattends
    exact absurd (hs.announced other (by rw [hparked]; rfl)).2 (of_decide_eq_false hcalls)
  all_goals
    subst h
    obtain ⟨h1, h2, h3, h4, h5, h6, h7, h8, h9, h10, h11, h12, h13, h14⟩ := hs
    constructor <;> first | assumption | grind -linarith

theorem HandlePc.deletes_eq_false {pc : HandlePc χ} (h : pc.owns = true) : pc.deletes = false := by
  cases pc <;> first | rfl | cases h

theorem Sound.freed_eq_zero (hs : Sound s) (howns : s.handle.owns = true) : s.freed = 0 := by
  rw [hs.freed, if_neg]
  rintro ⟨-, hnot, -⟩
  rw [howns] at hnot
  cases hnot

theorem Sound.touch_stray (hs : Sound s) (howns : s.handle.owns = true) : s.touch.stray = false := by
  rw [State.touch, hs.stray, hs.freed_eq_zero howns]
  rfl

/-- The handle goes on and keeps its reference. -/
theorem Sound.turn (hs : Sound s) (howns : s.handle.owns = true) (howns' : t.handle.owns = true)
    (htask : t.task = s.task) (hrefs : t.refs = s.refs) (hdone : t.done = s.done)
    (hescaped : t.escaped = s.escaped) (hjoins : t.joins = s.joins) (hsink : t.sink = s.sink)
    (hfreed : t.freed = s.freed) (hstray : t.stray = s.stray ∨ t.stray = s.touch.stray)
    (hannounced : ∀ joiner, t.handle.joiner = some joiner →
      t.waiterKind = some joiner ∧ t.waiter joiner = some t.calls)
    (hregistered : ∀ joiner, t.handle = .storeKind joiner → t.waiter joiner = some t.calls)
    (hasleep : ∀ joiner, t.handle = .parked joiner → s.task.attends joiner = true)
    (hcollecting : t.handle = .collect → s.done = true)
    (hstored : t.handle.result = none → s.handle.result = none ∧ t.exception = s.exception)
    (hcollected : ∀ result, t.handle.result = some result → s.done = true ∧ result = s.escaped) :
    Sound t := by
  have hempty : s.handle ≠ .empty := by
    intro heq
    rw [heq] at howns
    cases howns
  constructor
  case refs => rw [hrefs, htask, howns', ← howns, hs.refs]
  case deleting =>
    rw [htask]
    intro hdelete
    rw [(hs.deleting hdelete).1] at howns
    cases howns
  case deleting' =>
    rw [HandlePc.deletes_eq_false howns']
    exact nofun
  case freed =>
    rw [hfreed, hs.freed_eq_zero howns, howns', if_neg]
    rintro ⟨-, hnot, -⟩
    cases hnot
  case stray =>
    rcases hstray with heq | heq
    · rw [heq, hs.stray]
    · rw [heq, hs.touch_stray howns]
  case done => rw [hdone, htask, hs.done]
  case announced => exact hannounced
  case registered => exact hregistered
  case asleep =>
    rw [htask]
    exact fun joiner hparked _ ↦ hasleep joiner hparked
  case collecting =>
    rw [hdone]
    exact hcollecting
  case stored =>
    rw [htask, hjoins, hescaped]
    intro hstores hresult hnil
    obtain ⟨hresult, hexception⟩ := hstored hresult
    rw [hexception, hs.stored hstores hresult hnil]
  case collected =>
    rw [hdone, hescaped]
    exact hcollected
  case joined => exact Or.inl (hjoins ▸ hs.joins_eq_nil hempty)
  case sink => rw [hsink, hs.sink]

/-- A parked joiner wakes up. -/
theorem Sound.unpark (hs : Sound s) {joiner : Joiner} (hpc : s.handle = .parked joiner)
    (token : Bool) : Sound { s with token := token, handle := .check joiner } := by
  have hannounced := hs.announced joiner (by rw [hpc]; rfl)
  refine hs.turn (by rw [hpc]; rfl) rfl rfl rfl rfl rfl rfl rfl rfl (Or.inl rfl) ?_ nofun nofun nofun
    (fun _ ↦ ⟨by rw [hpc]; rfl, rfl⟩) nofun
  rintro other ⟨⟩
  exact hannounced

/-- A call on the handle is over. -/
theorem Sound.leaves (hs : Sound s) {result : Option (Option χ)} {u : State χ}
    (hpc : s.handle = .release result ∨ s.handle = .delete result) (htask : u.task = s.task)
    (hdone : u.done = s.done) (hescaped : u.escaped = s.escaped)
    (hexception : u.exception = s.exception) (hjoins : u.joins = s.joins) (hsink : u.sink = s.sink)
    (hrefs : u.refs = u.task.owns.toNat) (hdelete : u.task ≠ .delete)
    (hfreed : u.freed = if u.task = .gone then 1 else 0) (hstray : u.stray = false) :
    Sound (u.leave result) := by
  have hresult : s.handle.result = result := by
    rcases hpc with heq | heq <;> rw [heq] <;> rfl
  have hnil : u.joins = [] := by
    rw [hjoins, hs.joins_eq_nil]
    rcases hpc with heq | heq <;> rw [heq] <;> exact nofun
  constructor
  case refs => exact hrefs
  case deleting => exact fun heq ↦ absurd heq hdelete
  case deleting' => exact nofun
  case freed => simpa [State.leave, HandlePc.owns, HandlePc.deletes] using hfreed
  case stray => exact hstray
  case done =>
    show u.done = u.task.isDone
    rw [hdone, htask, hs.done]
  case announced => exact nofun
  case registered => exact nofun
  case asleep => exact nofun
  case collecting => exact nofun
  case stored =>
    intro hstores _ hempty
    show u.exception = u.escaped
    have hnone : result = none := by
      cases result with
      | none => rfl
      | some value => exact absurd hempty (by simp [State.leave])
    rw [hexception, hescaped, hs.stored (htask ▸ hstores) (hresult.trans hnone) (hjoins ▸ hnil)]
  case collected => exact nofun
  case joined =>
    cases result with
    | none => exact Or.inl (by simp [State.leave, hnil])
    | some value =>
      obtain ⟨hover, heq⟩ := hs.collected value hresult
      exact Or.inr ⟨rfl, hdone.trans hover, by simp [State.leave, hnil, heq, hescaped]⟩
  case sink =>
    show u.sink = []
    rw [hsink, hs.sink]

theorem sound_handle (hs : Sound s) (h : s.stepHandle = some t) : Sound t := by
  cases hpc : s.handle <;> simp only [State.stepHandle, hpc, Option.some.injEq, reduceCtorEq] at h
  case loadDone joiner =>
    subst h
    split_ifs with hdone
    · exact hs.turn (by rw [hpc]; rfl) rfl rfl rfl rfl rfl rfl rfl rfl (Or.inr rfl) nofun nofun
        nofun (fun _ ↦ hdone) (fun _ ↦ ⟨by rw [hpc]; rfl, rfl⟩) nofun
    · exact hs.turn (by rw [hpc]; rfl) rfl rfl rfl rfl rfl rfl rfl rfl (Or.inr rfl) nofun nofun
        nofun nofun (fun _ ↦ ⟨by rw [hpc]; rfl, rfl⟩) nofun
  case setWaiter joiner =>
    subst h
    refine hs.turn (by rw [hpc]; rfl) rfl rfl rfl rfl rfl rfl rfl rfl (Or.inr rfl) nofun ?_ nofun
      nofun (fun _ ↦ ⟨by rw [hpc]; rfl, rfl⟩) nofun
    rintro other ⟨⟩
    exact Function.update_self ..
  case storeKind joiner =>
    subst h
    have hregistered := hs.registered joiner hpc
    refine hs.turn (by rw [hpc]; rfl) rfl rfl rfl rfl rfl rfl rfl rfl (Or.inr rfl) ?_ nofun nofun
      nofun (fun _ ↦ ⟨by rw [hpc]; rfl, rfl⟩) nofun
    rintro other ⟨⟩
    exact ⟨rfl, hregistered⟩
  case check joiner =>
    subst h
    have hannounced := hs.announced joiner (by rw [hpc]; rfl)
    split_ifs with hdone
    · exact hs.turn (by rw [hpc]; rfl) rfl rfl rfl rfl rfl rfl rfl rfl (Or.inr rfl) nofun nofun
        nofun (fun _ ↦ hdone) (fun _ ↦ ⟨by rw [hpc]; rfl, rfl⟩) nofun
    · refine hs.turn (by rw [hpc]; rfl) rfl rfl rfl rfl rfl rfl rfl rfl (Or.inr rfl) ?_ nofun ?_
        nofun (fun _ ↦ ⟨by rw [hpc]; rfl, rfl⟩) nofun
      · rintro other ⟨⟩
        exact hannounced
      · rintro other ⟨⟩
        rw [hs.done] at hdone
        exact TaskPc.attends_of_not_isDone joiner (Bool.eq_false_iff.mpr hdone)
  case parked joiner =>
    split_ifs at h
    cases h
    exact hs.unpark hpc false
  case collect =>
    subst h
    refine hs.turn (by rw [hpc]; rfl) rfl rfl rfl rfl rfl rfl rfl rfl (Or.inr rfl) nofun nofun nofun
      nofun nofun ?_
    rintro result ⟨⟩
    exact ⟨hs.collecting hpc, hs.exception_eq hpc⟩
  case release result =>
    subst h
    have howns : s.handle.owns = true := by
      rw [hpc]
      rfl
    have hrefs : s.refs = s.task.owns.toNat + 1 := by
      rw [hs.refs, howns]
      rfl
    have hdelete : s.task ≠ .delete := by
      intro heq
      rw [(hs.deleting heq).1] at howns
      cases howns
    split_ifs with hlast
    · have htask : s.task.owns = false := Bool.toNat_eq_zero.mp (by omega)
      exact { hs with
        refs := by
          show s.refs - 1 = s.task.owns.toNat + 0
          omega
        deleting := fun heq ↦ absurd heq hdelete
        deleting' := fun _ ↦ TaskPc.eq_gone htask hdelete
        freed := by
          show s.freed = _
          rw [hs.freed_eq_zero howns, if_neg]
          exact fun h ↦ by cases h.2.2
        stray := hs.touch_stray howns
        announced := nofun
        registered := nofun
        asleep := nofun
        collecting := nofun
        stored := fun hstores hresult ↦ hs.stored hstores (by rw [hpc]; exact hresult)
        collected := fun other hresult ↦ hs.collected other (by rw [hpc]; exact hresult)
        joined := Or.inl (hs.joins_eq_nil (hpc ▸ (nomatch ·))) }
    · have htask : s.task.owns = true := by
        by_contra hnot
        rw [Bool.eq_false_iff.mpr hnot] at hrefs
        exact hlast hrefs
      obtain ⟨hgone, hnothing, -⟩ := hs.not_gone htask
      refine hs.leaves (Or.inl hpc) rfl rfl rfl rfl rfl rfl ?_ ?_ ?_ ?_
      · show s.refs - 1 = s.task.owns.toNat
        omega
      · exact fun heq ↦ absurd heq hdelete
      · exact hnothing.trans (if_neg hgone).symm
      · exact hs.touch_stray howns
  case delete result =>
    subst h
    have hgone : s.task = .gone := hs.deleting' (by rw [hpc]; rfl)
    have hnothing : s.freed = 0 := by
      rw [hs.freed, hpc, if_neg]
      exact fun h ↦ by cases h.2.2
    refine hs.leaves (Or.inr hpc) rfl rfl rfl rfl rfl rfl ?_ ?_ ?_ ?_
    · show s.refs = s.task.owns.toNat
      rw [hs.refs, hpc]
      rfl
    · intro heq
      rw [show s.task = .delete from heq] at hgone
      cases hgone
    · exact (congrArg (· + 1) hnothing).trans (if_pos hgone).symm
    · show s.touch.stray = false
      rw [State.touch, hs.stray, hnothing]
      rfl

/-- Every step keeps the two sides sound. -/
theorem sound_step {a : Action χ} (hs : Sound s) (h : step true s a = some t) : Sound t := by
  cases a with
  | task => exact sound_task hs h
  | handle => exact sound_handle hs h
  | finish escaped =>
    obtain ⟨h1, h2, h3, h4, h5, h6, h7, h8, h9, h10, h11, h12, h13, h14⟩ := hs
    simp only [step.eq_def] at h
    split_ifs at h
    cases h
    constructor <;> first | assumption | grind -linarith
  | staleWake =>
    cases h
    exact { hs with asleep := nofun }
  | isDone =>
    simp only [step.eq_def] at h
    split at h <;> cases h
    rename_i hpc
    exact { hs with stray := hs.touch_stray (by rw [hpc]; rfl) }
  | detach =>
    simp only [step.eq_def] at h
    split at h <;> cases h
    rename_i hpc
    exact hs.turn (by rw [hpc]; rfl) rfl rfl rfl rfl rfl rfl rfl rfl (Or.inl rfl) nofun nofun nofun
      nofun (fun _ ↦ ⟨by rw [hpc]; rfl, rfl⟩) nofun
  | join joiner stale =>
    simp only [step.eq_def] at h
    split at h <;> cases h
    rename_i hpc
    exact hs.turn (by rw [hpc]; rfl) rfl rfl rfl rfl rfl rfl rfl rfl (Or.inl rfl) nofun nofun nofun
      nofun (fun _ ↦ ⟨by rw [hpc]; rfl, rfl⟩) nofun
  | spurious =>
    simp only [step.eq_def] at h
    split at h <;> cases h
    rename_i joiner hpc
    exact hs.unpark hpc s.token
  | unwind =>
    simp only [step.eq_def] at h
    split at h <;> cases h
    rename_i hpc
    exact hs.turn (by rw [hpc]; rfl) rfl rfl rfl rfl rfl rfl rfl rfl (Or.inl rfl) nofun nofun nofun
      nofun (fun _ ↦ ⟨by rw [hpc]; rfl, rfl⟩) nofun

/-! ### The results -/

theorem sound_of_reachable (hs : (system χ true).Reachable s) : Sound s := by
  refine System.Reachable.invariant ?_
    (fun s a t hsound (hnext : step true s a = some t) ↦ sound_step hsound hnext) hs
  rintro _ rfl
  exact sound_initial

/-- Once the task is through with its side, a parked joiner has a wake pending. -/
theorem Sound.woken (hs : Sound s) {joiner : Joiner} (hparked : s.handle = .parked joiner)
    (hover : s.task = .release ∨ s.task = .delete ∨ s.task = .gone) : s.token = true := by
  by_contra htoken
  have hattends := hs.asleep joiner hparked (Bool.not_eq_true _ ▸ htoken)
  rcases hover with h | h | h <;> simp only [h, TaskPc.attends, Bool.false_eq_true] at hattends

/-- In every state that the two sides can reach: a `join` that has returned did so after the task
was done, rethrew what had escaped the body, once, and none of it went to the sink; a joiner does
not sleep when the task is through with its side, unless a wake is pending; and the state is deleted
at most once, exactly once when both sides are through, and not accessed after that. -/
theorem joins_safely {s : State χ} (hs : (system χ true).Reachable s) :
    (s.joins = [] ∨ s.done = true ∧ s.joins = [s.escaped]) ∧ s.sink = [] ∧
      (∀ joiner, s.handle = .parked joiner →
        s.task = .release ∨ s.task = .delete ∨ s.task = .gone → s.token = true) ∧
      s.freed ≤ 1 ∧ (s.task = .gone → s.handle = .empty → s.freed = 1) ∧ s.stray = false := by
  have hsound := sound_of_reachable hs
  refine ⟨hsound.joined.imp_right And.right, hsound.sink, fun _ ↦ hsound.woken, ?_, ?_,
    hsound.stray⟩
  · rw [hsound.freed]
    split_ifs <;> decide
  · intro htask hhandle
    rw [hsound.freed, if_pos ⟨htask, by rw [hhandle]; rfl, by rw [hhandle]; rfl⟩]

/-- A thread joins and sleeps. The body ends with an exception; the task stores `done`, the thread
wakes for no reason, sees it and returns, and only then the task unparks it and drops the state. -/
def returnedBeforeUnpark : List (Action Unit) :=
  [.join .thread false, .handle, .handle, .handle, .handle, .finish (some ()), .task, .task, .task,
    .spurious, .handle, .handle, .handle, .task, .task, .task]

theorem joins_safely_returnedBeforeUnpark :
    ∃ s, (system Unit true).run (initial true) returnedBeforeUnpark = some s ∧ s.task = .gone ∧
      s.handle = .empty ∧ s.joins = [some ()] ∧ s.sink = [] ∧ s.freed = 1 ∧ s.stray = false := by
  let s := ((system Unit true).run (initial true) returnedBeforeUnpark).get (by decide +kernel)
  have hs : (system Unit true).Reachable s :=
    System.reachable_of_run rfl (Option.some_get _).symm
  obtain ⟨-, hsink, -, -, hfreed, hstray⟩ := joins_safely hs
  exact ⟨s, (Option.some_get _).symm, by decide +kernel, by decide +kernel, by decide +kernel,
    hsink, hfreed (by decide +kernel) (by decide +kernel), hstray⟩

/-- What holds of a task without a handle. -/
structure Alone (s : State χ) : Prop where
  handle : s.handle = .empty
  task : s.task = .running ∨ s.task = .releasing ∨ s.task = .gone
  sink : s.sink = if s.task = .gone then s.escaped.toList else []
  joins : s.joins = []

theorem alone_step {a : Action χ} (hs : Alone s) (h : step false s a = some t) : Alone t := by
  obtain ⟨hhandle, htask, hsink, hjoins⟩ := hs
  cases a with
  | finish escaped =>
    simp only [step.eq_def] at h
    split_ifs at h with hrunning
    cases h
    exact ⟨hhandle, Or.inr (Or.inl rfl), by simpa [hrunning] using hsink, hjoins⟩
  | task =>
    rcases htask with htask | htask | htask
    · simp [step.eq_def, State.stepTask, htask] at h
    · simp only [step.eq_def, State.stepTask, htask, Bool.false_eq_true, if_false, Option.some.injEq] at h
      subst h
      exact ⟨hhandle, Or.inr (Or.inr rfl), by simp [hsink, htask], hjoins⟩
    · simp [step.eq_def, State.stepTask, htask] at h
  | handle => simp [step.eq_def, State.stepHandle, hhandle] at h
  | staleWake =>
    cases h
    exact ⟨hhandle, htask, hsink, hjoins⟩
  | _ => simp [step.eq_def, hhandle] at h

/-- A task without a handle gives the sink what escaped it, once, and nobody else. -/
theorem sink_of_unjoinable {s : State χ} (hs : (system χ false).Reachable s) :
    s.sink = (if s.task = .gone then s.escaped.toList else []) ∧ s.joins = [] := by
  have halone : Alone s := by
    refine System.Reachable.invariant ?_ (fun _ _ _ ↦ alone_step) hs
    rintro _ rfl
    exact ⟨rfl, Or.inl rfl, rfl, rfl⟩
  exact ⟨halone.sink, halone.joins⟩

end Stackfull.Sched.JoinHandle
