import Stackfull.Coro.ResumeSafety

/-!
# The task that a call is made from

`currentTask` and `isInsideTask` (`Runtime.h`), with the functions of `this_task` and the `Waiter` of
the synchronisation primitives (`Waiter.cpp`) that rely on them, over the coroutine layer and the
switches of the scheduler. The blocks of the coroutine layer are those of the tasks and those of
the plain coroutines. Tasks are spawned, run, leave for the next task or for the dispatcher, are
woken and end; plain coroutines are made, resumed, left and destroyed by whatever runs.

The lookups test only that a worker's current context is not its native one. `lookups_right_iff`
says that they are right exactly where no plain coroutine runs on a worker. `encloses_iff` ties
the two layers together: the task that encloses what runs on a thread is the one that the scheduler
has put there.
-/

set_option autoImplicit false
set_option relaxedAutoImplicit false
set_option linter.dupNamespace false

namespace Stackfull.Sched.CurrentTask

open Stackfull.Lib
open Coro (CoroutineState Context Move Stacked top)

universe u v w

/-- A context block on a stack of its own: of a `Task`, or of a plain coroutine. -/
inductive Block (τ : Type v) (ι : Type w)
  | task (task : τ)
  | plain (coroutine : ι)
  deriving DecidableEq

/-- What the scheduler knows about a task. -/
inductive Place
  | absent
  | ready
  | parked
  | running
  deriving DecidableEq

/-- How a task leaves a worker. -/
inductive Leaving
  | yields
  | parks
  | ends
  deriving DecidableEq

/-- The two layers. -/
structure State (Θ : Type u) (τ : Type v) (ι : Type w) where
  coro : Coro.State Θ (Block τ ι)
  /-- `thread.worker` is set. -/
  worker : Θ → Bool
  place : τ → Place
  /-- The task that the scheduler has put on a thread. -/
  onThread : Θ → Option τ

/-- What happens on a thread. -/
inductive Action (τ : Type v) (ι : Type w)
  | startWorker
  | stopWorker
  | spawn (task : τ)
  | wake (task : τ)
  | switch (next : Option τ) (leaving : Leaving)
  | coroutine (move : Move ι)

/-- A move with the plain coroutines. -/
def plainMove {τ : Type v} {ι : Type w} : Move ι → Move (Block τ ι)
  | .make block => .make (.plain block)
  | .resume block => .resume (.plain block)
  | .yield => .yield
  | .finish threw => .finish threw
  | .destroy block => .destroy (.plain block)

/-- `switchTo` and `finishAndSwitchTo` between a task, the next one and the dispatcher. -/
def swap {Θ : Type u} {κ : Type v} [DecidableEq Θ] [DecidableEq κ] (s : Coro.State Θ κ)
    (thread : Θ) (target : Context Θ κ) (fromState : CoroutineState) : Coro.State Θ κ :=
  { s.switchTo thread target fromState none with
    frame := Function.update (Function.update s.frame (s.current thread) none) target none }

variable {Θ : Type u} {τ : Type v} {ι : Type w}

namespace State

variable (s : State Θ τ ι) (thread : Θ)

/-- The context of the next task, or the dispatcher's. -/
def target (thread : Θ) : Option τ → Context Θ (Block τ ι)
  | some task => .coroutine (.task task)
  | none => .native thread

variable [DecidableEq Θ] [DecidableEq τ] [DecidableEq ι]

omit [DecidableEq Θ] [DecidableEq ι] in
/-- The next task, if there is one, is running. -/
def running (place : τ → Place) : Option τ → τ → Place
  | some task => Function.update place task .running
  | none => place

/-- The dispatcher runs a task, or a task leaves. What a task that has ended leaves behind is
released by the post-switch hook. -/
def switch (next : Option τ) (leaving : Leaving) : Option (State Θ τ ι) :=
  if s.worker thread ∧ ∀ task ∈ next, s.place task = .ready ∨ s.place task = .parked then
    match s.coro.current thread with
    | .native _ =>
      next.map fun task ↦
        { s with
          coro := swap s.coro thread (.coroutine (.task task)) .suspended
          place := running s.place (some task)
          onThread := Function.update s.onThread thread (some task) }
    | .coroutine (.task self) =>
      let coro := swap s.coro thread (target thread next)
        (if leaving = .ends then .done else .suspended)
      let place := Function.update s.place self (match leaving with
        | .yields => .ready
        | .parks => .parked
        | .ends => .absent)
      some { s with
        coro := if leaving = .ends then coro.release (.task self) else coro
        place := running place next
        onThread := Function.update s.onThread thread next }
    | .coroutine (.plain _) => none
  else none

/-- One step. -/
def step (s : State Θ τ ι) : Θ × Action τ ι → Option (State Θ τ ι)
  | (thread, .startWorker) =>
    if s.coro.current thread = .native thread then
      some { s with worker := Function.update s.worker thread true } else none
  | (thread, .stopWorker) =>
    if s.coro.current thread = .native thread then
      some { s with worker := Function.update s.worker thread false } else none
  | (_, .spawn task) =>
    if s.place task = .absent then
      some { s with
        coro := s.coro.make (.task task)
        place := Function.update s.place task .ready }
    else none
  | (_, .wake task) =>
    if s.place task = .parked then
      some { s with place := Function.update s.place task .ready } else none
  | (thread, .switch next leaving) => s.switch thread next leaving
  | (thread, .coroutine move) =>
    (s.coro.step (thread, plainMove move)).map fun coro ↦ { s with coro := coro }

/-- Threads without workers, and nothing made. -/
def initial : State Θ τ ι where
  coro := .initial
  worker _ := false
  place _ := .absent
  onThread _ := none

end State

/-- The scheduler and the coroutines. -/
def system (Θ : Type u) (τ : Type v) (ι : Type w) [DecidableEq Θ] [DecidableEq τ]
    [DecidableEq ι] : System (State Θ τ ι) (Θ × Action τ ι) where
  init s := s = State.initial
  step := State.step

/-! ### The lookups -/

namespace State

variable (s : State Θ τ ι) (thread : Θ)

/-- `isNativeContext` of the current context. -/
def isNative : Bool :=
  match s.coro.current thread with
  | .native _ => true
  | .coroutine _ => false

/-- `currentTask`: the block that it casts to a `Task`, unless it aborts. -/
def currentTask : Option (Context Θ (Block τ ι)) :=
  if s.worker thread ∧ s.isNative thread = false then some (s.coro.current thread) else none

/-- `isInsideTask`. -/
def isInsideTask : Bool := s.worker thread && !s.isNative thread

end State

/-- What a `Waiter` waits with. -/
inductive Waiter (Θ : Type u) (κ : Type v)
  | token (task : Context Θ κ)
  | parker

/-- The functions that look the task up. -/
inductive Use (Θ : Type u) (κ : Type v)
  | token
  | yield
  | park
  | waiter
  | wait (waiter : Waiter Θ κ)

namespace State

variable (s : State Θ τ ι) (thread : Θ)

/-- `Waiter::Waiter`. -/
def waiter : Option (Waiter Θ (Block τ ι)) :=
  if s.isInsideTask thread then (s.currentTask thread).map .token else some .parker

/-- The block that a call treats as a `Task`. -/
def treats : Use Θ (Block τ ι) → Option (Context Θ (Block τ ι))
  | .token | .yield | .park => s.currentTask thread
  | .waiter => if s.isInsideTask thread then s.currentTask thread else none
  | .wait .parker => none
  | .wait (.token _) => s.currentTask thread

/-- The task that encloses what a context runs: the context itself if it is a task's, else the task
that encloses the call that resumed it. -/
inductive Encloses : Context Θ (Block τ ι) → τ → Prop
  | task (task : τ) : Encloses (.coroutine (.task task)) task
  | resumed {coroutine : ι} {caller : Context Θ (Block τ ι)} {task : τ} :
      s.coro.resumer (.plain coroutine) = some caller → Encloses caller task →
      Encloses (.coroutine (.plain coroutine)) task

/-- A block is the one of the task that encloses what runs on the thread. -/
def IsEnclosing (block : Context Θ (Block τ ι)) : Prop :=
  ∃ task, block = .coroutine (.task task) ∧ s.Encloses (s.coro.current thread) task

/-- The lookups on a thread mistake nothing for a task. -/
structure Right : Prop where
  treats : ∀ use, ∀ block ∈ s.treats thread use, s.IsEnclosing thread block
  inside : s.isInsideTask thread = true → s.IsEnclosing thread (s.coro.current thread)

/-- A plain coroutine runs on a worker. -/
def InPlain : Prop :=
  s.worker thread = true ∧ ∃ coroutine, s.coro.current thread = .coroutine (.plain coroutine)

end State

namespace State

variable {s : State Θ τ ι} {thread : Θ}

/-- A lookup that succeeds yields the current context. -/
theorem current_of_treats {use : Use Θ (Block τ ι)} {block : Context Θ (Block τ ι)}
    (h : block ∈ s.treats thread use) : s.worker thread = true ∧ s.isNative thread = false ∧
      block = s.coro.current thread := by
  have hlook : block ∈ s.currentTask thread := by
    cases use with
    | token | yield | park => exact h
    | waiter =>
      rw [treats] at h
      split at h
      · exact h
      · cases h
    | wait waiter =>
      cases waiter with
      | token task => exact h
      | parker => cases h
  obtain ⟨⟨hworker, hnative⟩, heq⟩ := Option.ite_none_right_eq_some.mp hlook
  exact ⟨hworker, hnative, (Option.some.inj heq).symm⟩

/-- Where no plain coroutine runs, a worker's current context that is not native is a task's. -/
theorem isEnclosing_of_not_inPlain (h : ¬ s.InPlain thread) (hworker : s.worker thread = true)
    (hnative : s.isNative thread = false) : s.IsEnclosing thread (s.coro.current thread) := by
  rw [isNative] at hnative
  split at hnative
  · cases hnative
  · rename_i block hcurrent
    cases block with
    | task task => exact ⟨task, hcurrent, hcurrent ▸ .task task⟩
    | plain coroutine => exact absurd ⟨hworker, coroutine, hcurrent⟩ h

/-- In a plain coroutine that runs on a worker, `isInsideTask` answers true. -/
theorem not_right_of_inPlain (hplain : s.InPlain thread) : ¬ s.Right thread := by
  obtain ⟨hworker, coroutine, hcurrent⟩ := hplain
  intro h
  have hinside : s.isInsideTask thread = true := by
    rw [isInsideTask, isNative, hworker, hcurrent]
    rfl
  obtain ⟨task, heq, -⟩ := h.inside hinside
  rw [hcurrent] at heq
  cases heq

/-- **The lookups of a thread are right exactly when no plain coroutine runs on it as a worker.** -/
theorem lookups_right_iff (s : State Θ τ ι) (thread : Θ) :
    s.Right thread ↔ ¬ s.InPlain thread := by
  constructor
  · exact fun h hplain ↦ not_right_of_inPlain hplain h
  · intro h
    refine ⟨fun use block hblock ↦ ?_, fun hinside ↦ ?_⟩
    · obtain ⟨hworker, hnative, rfl⟩ := current_of_treats hblock
      exact isEnclosing_of_not_inPlain h hworker hnative
    · rw [isInsideTask, Bool.and_eq_true, Bool.not_eq_true'] at hinside
      exact isEnclosing_of_not_inPlain h hinside.1 hinside.2

end State

/-! ### The two layers together -/

section Swap

variable {κ : Type v} [DecidableEq Θ] [DecidableEq κ] {s : Coro.State Θ κ}
  {base : Θ → Context Θ κ} {stack : Θ → List κ}

theorem swap_other {t : Θ} {target : Context Θ κ} {fromState : CoroutineState} {x : Context Θ κ}
    (hx : x ≠ s.current t) (htarget : x ≠ target) :
    (swap s t target fromState).state x = s.state x ∧
      (swap s t target fromState).frame x = s.frame x :=
  ⟨(Function.update_of_ne htarget _ _).trans (Function.update_of_ne hx _ _),
    (Function.update_of_ne htarget _ _).trans (Function.update_of_ne hx _ _)⟩

/-- A thread on which no plain coroutine is active changes its base to a context at no place. -/
theorem stacked_swap (h : Stacked s base stack) {t : Θ} (hempty : stack t = [])
    {target : Context Θ κ} (hout : ∀ t' rest, rest <:+ stack t' → top (base t') rest ≠ target)
    (hallocated : ∀ c, target = .coroutine c → s.allocated c = true) {fromState : CoroutineState}
    (hfrom : fromState ≠ .running) :
    Stacked (swap s t target fromState) (Function.update base t target) stack := by
  have hcurrent : s.current t = base t := by rw [h.current t, hempty, top]
  -- Nothing changes on the other threads.
  have hplace : ∀ {t' rest}, rest <:+ stack t' → t' ≠ t →
      (swap s t target fromState).state (top (base t') rest) = s.state (top (base t') rest) ∧
        (swap s t target fromState).frame (top (base t') rest) =
          s.frame (top (base t') rest) := by
    intro t' rest hrest hne
    refine swap_other (fun heq ↦ hne ?_) (hout t' rest hrest)
    exact (h.top_inj hrest List.nil_suffix (heq.trans hcurrent)).1
  refine ⟨fun t' ↦ ?_, fun t' ↦ ?_, fun t' ↦ ?_, fun t' c rest hrest ↦ ?_,
    fun t' rest c hrest heq ↦ ?_, h.nodup, h.disjoint, fun t' t'' heq ↦ ?_,
    fun t' t'' c hbase hc ↦ ?_, fun x hx ↦ ?_⟩
  · rcases eq_or_ne t' t with rfl | hne
    · rw [hempty, top, Function.update_self]
      exact Function.update_self ..
    · rw [Function.update_of_ne hne]
      exact (Function.update_of_ne hne _ _).trans (h.current t')
  · rcases eq_or_ne t' t with rfl | hne
    · rw [hempty, top, Function.update_self]
      exact Function.update_self ..
    · rw [Function.update_of_ne hne]
      exact (hplace List.suffix_rfl hne).1.trans (h.running t')
  · rcases eq_or_ne t' t with rfl | hne
    · rw [hempty, top, Function.update_self]
      exact Function.update_self ..
    · rw [Function.update_of_ne hne]
      exact (hplace List.suffix_rfl hne).2.trans (h.frameless t')
  · rcases eq_or_ne t' t with rfl | hne
    · rw [hempty] at hrest
      cases List.suffix_nil.mp hrest
    · have hkeep := hplace ((List.suffix_cons c rest).trans hrest) hne
      rw [Function.update_of_ne hne, hkeep.1, hkeep.2]
      exact h.linked t' c rest hrest
  · rcases eq_or_ne t' t with rfl | hne
    · rw [hempty] at hrest
      rw [List.suffix_nil.mp hrest, top, Function.update_self] at heq
      exact hallocated c heq
    · rw [Function.update_of_ne hne] at heq
      exact h.allocated t' rest c hrest heq
  · have hnew : ∀ t', base t' ≠ target := fun t' ↦ hout t' [] List.nil_suffix
    rcases eq_or_ne t' t with rfl | hne <;> rcases eq_or_ne t'' t' with rfl | hne'
    · rfl
    · rw [Function.update_self, Function.update_of_ne hne'] at heq
      exact absurd heq.symm (hnew t'')
    · rfl
    · rw [Function.update_of_ne hne] at heq
      rcases eq_or_ne t'' t with rfl | hne''
      · rw [Function.update_self] at heq
        exact absurd heq (hnew t')
      · rw [Function.update_of_ne hne''] at heq
        exact h.base_inj t' t'' heq
  · rcases eq_or_ne t' t with rfl | hne
    · rw [Function.update_self] at hbase
      obtain ⟨front, rest, heq⟩ := List.append_of_mem hc
      exact hout t'' (c :: rest) ⟨front, heq.symm⟩ hbase.symm
    · rw [Function.update_of_ne hne] at hbase
      exact h.base_out t' t'' c hbase hc
  · have hxtarget : x ≠ target := fun heq ↦
      hx t [] List.nil_suffix (by rw [top, Function.update_self, heq])
    by_cases hxt : x = s.current t
    · refine ⟨?_, fun entry callee number ↦ ?_⟩
      · change Function.update (Function.update s.state (s.current t) fromState) target _ x ≠ _
        rw [Function.update_of_ne hxtarget, hxt, Function.update_self]
        exact hfrom
      · change Function.update (Function.update s.frame (s.current t) none) target none x ≠ _
        rw [Function.update_of_ne hxtarget, hxt, Function.update_self]
        exact fun heq ↦ by cases heq
    · rw [(swap_other hxt hxtarget).1, (swap_other hxt hxtarget).2]
      refine h.outside x fun t' rest hrest heq ↦ ?_
      rcases eq_or_ne t' t with rfl | hne
      · rw [hempty] at hrest
        rw [List.suffix_nil.mp hrest, top] at heq
        exact hxt (heq.symm.trans hcurrent.symm)
      · exact hx t' rest hrest (by rwa [Function.update_of_ne hne])

end Swap

/-- What runs on a thread below the plain coroutines: its dispatcher, or the scheduler's task. -/
def base (onThread : Θ → Option τ) (thread : Θ) : Context Θ (Block τ ι) :=
  State.target thread (onThread thread)

theorem base_update [DecidableEq Θ] (onThread : Θ → Option τ) (t : Θ) (next : Option τ) :
    (base (Function.update onThread t next) : Θ → Context Θ (Block τ ι)) =
      Function.update (base onThread) t (State.target t next) := by
  funext t'
  rcases eq_or_ne t' t with rfl | hne
  · rw [base, Function.update_self, Function.update_self]
  · rw [base, Function.update_of_ne hne, Function.update_of_ne hne]
    rfl

theorem target_eq_task {t : Θ} {next : Option τ} {task : τ}
    (h : (State.target t next : Context Θ (Block τ ι)) = .coroutine (.task task)) :
    next = some task := by
  cases next with
  | some other =>
    cases h
    rfl
  | none => cases h

/-- Where only plain coroutines are active, a context at a place that is not a plain coroutine is
the base. -/
theorem eq_nil_of_top {b x : Context Θ (Block τ ι)} {rest : List (Block τ ι)}
    (hplain : ∀ block ∈ rest, ∃ coroutine, block = .plain coroutine)
    (hx : ∀ coroutine, x ≠ .coroutine (.plain coroutine)) (heq : top b rest = x) : rest = [] := by
  cases rest with
  | nil => rfl
  | cons block rest =>
    obtain ⟨coroutine, rfl⟩ := hplain _ List.mem_cons_self
    exact absurd heq.symm (hx coroutine)

/-- The two layers agree. -/
structure Agrees (s : State Θ τ ι) : Prop where
  stacked : ∃ stack, Stacked s.coro (base s.onThread) stack ∧
    ∀ t, ∀ block ∈ stack t, ∃ coroutine, block = .plain coroutine
  placed : ∀ task, s.place task = .running ↔ ∃ t, s.onThread t = some task
  allocated : ∀ task, s.coro.allocated (.task task) = true ↔ s.place task ≠ .absent
  resumer : ∀ task, s.coro.resumer (.task task) = none

/-- The condition on a step: no plain coroutine is entered that stands in a call of its own. -/
def Free (s : State Θ τ ι) : Θ × Action τ ι → Prop
  | (thread, .coroutine move) => s.coro.Free (thread, plainMove move)
  | _ => True

namespace Agrees

theorem initial : Agrees (State.initial : State Θ τ ι) where
  stacked := ⟨fun _ ↦ [], Stacked.initial, fun _ _ hmem ↦ by cases hmem⟩
  placed _ := ⟨fun h ↦ (by cases h), fun ⟨_, h⟩ ↦ by cases h⟩
  allocated _ := ⟨fun h ↦ (by cases h), fun h ↦ absurd rfl h⟩
  resumer _ := rfl

variable {s s' : State Θ τ ι} {t : Θ}

/-- A task that may be run, and a dispatcher that does not, are at no place. -/
theorem outside (h : Agrees s) {stack : Θ → List (Block τ ι)}
    (hplain : ∀ t, ∀ block ∈ stack t, ∃ coroutine, block = .plain coroutine) {next : Option τ}
    (hready : ∀ task ∈ next, s.place task ≠ .running) (hbusy : next = none → s.onThread t ≠ none)
    (t' : Θ) (rest : List (Block τ ι)) (hrest : rest <:+ stack t') :
    top (base s.onThread t') rest ≠ State.target t next := by
  intro heq
  have hnil : rest = [] := eq_nil_of_top (fun block hblock ↦ hplain t' block (hrest.subset hblock))
    (fun coroutine hc ↦ by cases next <;> cases hc) heq
  rw [hnil, top] at heq
  cases next with
  | some task =>
    exact hready task rfl ((h.placed task).mpr ⟨t', target_eq_task heq⟩)
  | none =>
    rw [base] at heq
    cases hon : s.onThread t' with
    | some task =>
      rw [hon] at heq
      cases heq
    | none =>
      rw [hon] at heq
      cases heq
      exact hbusy rfl hon

/-- A task is on one thread at most. -/
theorem onThread_inj (h : Agrees s) {t t' : Θ} {task : τ} (ht : s.onThread t = some task)
    (ht' : s.onThread t' = some task) : t = t' := by
  obtain ⟨stack, hstack, -⟩ := h.stacked
  refine hstack.base_inj t t' ?_
  rw [base, base, ht, ht']
  rfl

variable [DecidableEq Θ] [DecidableEq τ] [DecidableEq ι]

omit [DecidableEq Θ] [DecidableEq ι] in
/-- A task that is put on a thread exists before and after. -/
theorem running_eq_absent {place : τ → Place} {next : Option τ}
    (hready : ∀ task ∈ next, place task = .ready ∨ place task = .parked) (task : τ) :
    State.running place next task = .absent ↔ place task = .absent := by
  cases next with
  | none => rfl
  | some other =>
    rw [State.running]
    rcases eq_or_ne task other with rfl | hne
    · rw [Function.update_self]
      rcases hready task rfl with hplace | hplace <;> rw [hplace] <;> decide
    · rw [Function.update_of_ne hne]

omit [DecidableEq ι] in
/-- Who is on which thread after a switch. -/
theorem placed_switch (h : Agrees s) (next : Option τ) {vacated : τ → Place}
    (hvacated : ∀ task, vacated task = .running ↔
      s.place task = .running ∧ s.onThread t ≠ some task) (task : τ) :
    State.running vacated next task = .running ↔
      ∃ t', Function.update s.onThread t next t' = some task := by
  have hothers : vacated task = .running ↔ ∃ t', t' ≠ t ∧ s.onThread t' = some task := by
    rw [hvacated, h.placed]
    constructor
    · rintro ⟨⟨t', ht'⟩, hne⟩
      exact ⟨t', fun heq ↦ hne (heq ▸ ht'), ht'⟩
    · rintro ⟨t', hne, ht'⟩
      exact ⟨⟨t', ht'⟩, fun ht ↦ hne (h.onThread_inj ht' ht)⟩
  have hnext : (∃ t', Function.update s.onThread t next t' = some task) ↔
      next = some task ∨ ∃ t', t' ≠ t ∧ s.onThread t' = some task := by
    constructor
    · rintro ⟨t', ht'⟩
      rcases eq_or_ne t' t with rfl | hne
      · rw [Function.update_self] at ht'
        exact .inl ht'
      · rw [Function.update_of_ne hne] at ht'
        exact .inr ⟨t', hne, ht'⟩
    · rintro (hsome | ⟨t', hne, ht'⟩)
      · exact ⟨t, by rw [Function.update_self, hsome]⟩
      · exact ⟨t', by rw [Function.update_of_ne hne, ht']⟩
  rw [hnext, ← hothers]
  cases next with
  | none => simp [State.running]
  | some other =>
    rcases eq_or_ne task other with rfl | hne
    · simp [State.running]
    · simp [State.running, hne, hne.symm]

/-- A switch of the scheduler changes the base of the thread. -/
theorem stacked_switch (h : Agrees s) {stack : Θ → List (Block τ ι)}
    (hstack : Stacked s.coro (base s.onThread) stack)
    (hplain : ∀ t, ∀ block ∈ stack t, ∃ coroutine, block = .plain coroutine)
    (hcurrent : ∀ coroutine, s.coro.current t ≠ .coroutine (.plain coroutine)) {next : Option τ}
    (hready : ∀ task ∈ next, s.place task = .ready ∨ s.place task = .parked)
    (hbusy : next = none → s.onThread t ≠ none) {fromState : CoroutineState}
    (hfrom : fromState ≠ .running) :
    Stacked (swap s.coro t (State.target t next) fromState)
      (base (Function.update s.onThread t next)) stack := by
  have hempty : stack t = [] := eq_nil_of_top (hplain t) hcurrent (hstack.current t).symm
  rw [base_update]
  refine stacked_swap hstack hempty (h.outside hplain (fun task htask ↦ ?_) hbusy)
    (fun c hc ↦ ?_) hfrom
  · rcases hready task htask with hplace | hplace <;> rw [hplace] <;> decide
  · cases next with
    | none => cases hc
    | some task =>
      cases hc
      refine (h.allocated task).mpr fun habsent ↦ ?_
      rcases hready task rfl with hplace | hplace <;> rw [hplace] at habsent <;> cases habsent

omit [DecidableEq Θ] [DecidableEq τ] [DecidableEq ι] in
/-- What the current context says about the scheduler's task, if it is not a plain coroutine. -/
theorem base_of_current (h : Agrees s)
    (hcurrent : ∀ coroutine, s.coro.current t ≠ .coroutine (.plain coroutine)) :
    base s.onThread t = s.coro.current t := by
  obtain ⟨stack, hstack, hplain⟩ := h.stacked
  have hempty := eq_nil_of_top (hplain t) hcurrent (hstack.current t).symm
  rw [hstack.current t, hempty, top]

theorem dispatch (h : Agrees s) {native : Θ} (hcurrent : s.coro.current t = .native native)
    {task : τ} (hready : s.place task = .ready ∨ s.place task = .parked) :
    Agrees { s with
      coro := swap s.coro t (.coroutine (.task task)) .suspended
      place := State.running s.place (some task)
      onThread := Function.update s.onThread t (some task) } := by
  obtain ⟨stack, hstack, hplain⟩ := h.stacked
  have hnot : ∀ coroutine, s.coro.current t ≠ .coroutine (.plain coroutine) :=
    fun _ heq ↦ by rw [hcurrent] at heq; cases heq
  have hbase := h.base_of_current hnot
  have hnone : s.onThread t = none := by
    rw [hcurrent, base] at hbase
    cases hon : s.onThread t with
    | none => rfl
    | some other =>
      rw [hon] at hbase
      cases hbase
  refine ⟨⟨stack, ?_, hplain⟩, fun other ↦ ?_, fun other ↦ ?_, h.resumer⟩
  · have hnext : ∀ other ∈ some task, s.place other = .ready ∨ s.place other = .parked :=
      fun other hother ↦ by cases hother; exact hready
    exact h.stacked_switch hstack hplain hnot hnext (fun hfalse ↦ by cases hfalse) (by decide)
  · refine h.placed_switch (some task) (fun task ↦ ⟨fun hplace ↦ ⟨hplace, ?_⟩, And.left⟩) other
    rw [hnone]
    exact fun hfalse ↦ by cases hfalse
  · have hplace : State.running s.place (some task) other = .absent ↔ s.place other = .absent :=
      running_eq_absent (fun next hnext ↦ by cases hnext; exact hready) other
    exact (h.allocated other).trans (not_congr hplace.symm)

/-- Where a task that leaves is afterwards. -/
theorem leave (h : Agrees s) {self : τ} (hcurrent : s.coro.current t = .coroutine (.task self))
    {next : Option τ} (hready : ∀ task ∈ next, s.place task = .ready ∨ s.place task = .parked)
    {coro : Coro.State Θ (Block τ ι)} (left : Place) {fromState : CoroutineState}
    (hleft : left ≠ .running) (hfrom : fromState ≠ .running)
    (hcoro : (left ≠ .absent ∧ coro = swap s.coro t (State.target t next) fromState) ∨
      (left = .absent ∧ fromState = .done ∧
        coro = (swap s.coro t (State.target t next) fromState).release (.task self))) :
    Agrees { s with
      coro := coro
      place := State.running (Function.update s.place self left) next
      onThread := Function.update s.onThread t next } := by
  obtain ⟨stack, hstack, hplain⟩ := h.stacked
  have hnot : ∀ coroutine, s.coro.current t ≠ .coroutine (.plain coroutine) :=
    fun _ heq ↦ by rw [hcurrent] at heq; cases heq
  have hself : s.onThread t = some self := target_eq_task ((h.base_of_current hnot).trans hcurrent)
  have hrunning : s.place self = .running := (h.placed self).mpr ⟨t, hself⟩
  have hother : ∀ task ∈ next, task ≠ self := fun task htask heq ↦ by
    rcases hready task htask with hplace | hplace <;> rw [heq, hrunning] at hplace <;> cases hplace
  have hswitched := h.stacked_switch hstack hplain hnot hready (fun _ ↦ by rw [hself]; simp) hfrom
  refine ⟨⟨stack, ?_, hplain⟩, fun task ↦ ?_, fun task ↦ ?_, fun task ↦ ?_⟩
  · rcases hcoro with ⟨-, rfl⟩ | ⟨-, rfl, rfl⟩
    · exact hswitched
    · refine hswitched.release fun _ _ ↦ hswitched.outside_of_state (.inr ?_)
      have hne : (.coroutine (.task self) : Context Θ (Block τ ι)) ≠ State.target t next :=
        fun heq ↦ hother self (target_eq_task heq.symm) rfl
      change Function.update (Function.update s.coro.state _ _) _ _ _ = _
      rw [Function.update_of_ne hne, hcurrent, Function.update_self]
  · refine h.placed_switch next (fun other ↦ ?_) task
    rw [hself]
    rcases eq_or_ne other self with rfl | hne
    · simp [hleft]
    · simp [hne, hne.symm]
  · have hplace : State.running (Function.update s.place self left) next task = .absent ↔
        Function.update s.place self left task = .absent :=
      running_eq_absent (fun other hnext ↦ by
        rw [Function.update_of_ne (hother other hnext)]
        exact hready other hnext) task
    refine Iff.trans ?_ (not_congr hplace.symm)
    rcases eq_or_ne task self with rfl | hne
    · rw [Function.update_self]
      rcases hcoro with ⟨hstays, rfl⟩ | ⟨rfl, -, rfl⟩
      · have hallocated : s.coro.allocated (.task task) = true :=
          (h.allocated task).mpr fun habsent ↦ by rw [hrunning] at habsent; cases habsent
        exact ⟨fun _ ↦ hstays, fun _ ↦ hallocated⟩
      · refine ⟨fun hallocated ↦ ?_, fun hstays ↦ absurd rfl hstays⟩
        exact absurd hallocated (by simp [Coro.State.release])
    · rw [Function.update_of_ne hne]
      refine Iff.trans (Eq.congr_left ?_) (h.allocated task)
      rcases hcoro with ⟨-, rfl⟩ | ⟨-, -, rfl⟩
      · rfl
      · exact Function.update_of_ne (fun heq ↦ hne (Block.task.inj heq)) _ _
  · rcases hcoro with ⟨-, rfl⟩ | ⟨-, -, rfl⟩ <;> exact h.resumer task

theorem switch (h : Agrees s) {next : Option τ} {leaving : Leaving}
    (hswitch : s.switch t next leaving = some s') : Agrees s' := by
  obtain ⟨⟨-, hready⟩, hswitch⟩ := Option.ite_none_right_eq_some.mp hswitch
  split at hswitch
  · obtain ⟨task, rfl, rfl⟩ := Option.map_eq_some_iff.mp hswitch
    exact h.dispatch ‹_› (hready task rfl)
  · rename_i self hcurrent
    cases hswitch
    cases leaving with
    | yields =>
      exact h.leave hcurrent hready .ready (by decide) (by decide) (.inl ⟨by decide, rfl⟩)
    | parks =>
      exact h.leave hcurrent hready .parked (by decide) (by decide) (.inl ⟨by decide, rfl⟩)
    | ends => exact h.leave hcurrent hready .absent (by decide) (by decide) (.inr ⟨rfl, rfl, rfl⟩)
  · cases hswitch

/-- Nothing that a plain coroutine does releases a task or resumes one. -/
theorem tasks_kept {coro coro' : Coro.State Θ (Block τ ι)} {base : Θ → Context Θ (Block τ ι)}
    {stack : Θ → List (Block τ ι)} {move : Move ι} (hstack : Stacked coro base stack)
    (hplain : ∀ t, ∀ block ∈ stack t, ∃ coroutine, block = .plain coroutine)
    (heffect : Coro.Effect coro base stack t (plainMove move) coro') (task : τ) :
    coro'.allocated (.task task) = coro.allocated (.task task) ∧
      coro'.resumer (.task task) = coro.resumer (.task task) := by
  have hmove : ∀ c, plainMove move = .make c ∨ plainMove move = .resume c ∨
      plainMove move = .destroy c → (.task task : Block τ ι) ≠ c := by
    rintro c hc rfl
    cases move <;> rcases hc with hc | hc | hc <;> cases hc
  generalize plainMove move = blockMove at heffect hmove
  cases heffect with
  | made hnew =>
    have hne := hmove _ (.inl rfl)
    exact (coro.make_block hne).symm
  | entered hentry hallocated hout hstate =>
    exact ⟨rfl, (coro.enter_block t (hmove _ (.inr hentry))).1⟩
  | @left _ c rest _ _ _ hactive _ _ hleft =>
    have hsuffix : c :: rest <:+ stack t := hactive ▸ List.suffix_rfl
    obtain ⟨-, -, entry, hframe⟩ := hstack.linked t c rest hsuffix
    obtain ⟨coroutine, rfl⟩ := hplain t c (hsuffix.subset List.mem_cons_self)
    refine ⟨hleft.allocated _ (fun heq ↦ ?_) fun number heq ↦ ?_, by rw [hleft.resumer]⟩
    · have hrunning := hstack.running t
      rw [← hstack.current t, ← heq, (hstack.linked t _ rest hsuffix).2.1] at hrunning
      cases hrunning
    · rw [hframe] at heq
      cases heq
  | released hout => exact ⟨Function.update_of_ne (hmove _ (.inr (.inr rfl))) _ _, rfl⟩

/-- A move with the plain coroutines. -/
theorem coroutine (h : Agrees s) {move : Move ι} (hfree : s.coro.Free (t, plainMove move))
    {coro : Coro.State Θ (Block τ ι)} (hstep : s.coro.step (t, plainMove move) = some coro) :
    Agrees { s with coro := coro } := by
  obtain ⟨stack, hstack, hplain⟩ := h.stacked
  have hbase : ∀ c, base s.onThread t = .coroutine c → s.coro.resumer c = none := fun c hc ↦ by
    cases hon : s.onThread t with
    | none =>
      rw [base, hon] at hc
      cases hc
    | some task =>
      rw [base, hon] at hc
      cases hc
      exact h.resumer task
  have heffect := Coro.effect_of_step hstack hbase hfree hstep
  have hkept := tasks_kept hstack hplain heffect
  obtain ⟨stack', hstack', honly⟩ := heffect.stacked hstack
  refine ⟨⟨stack', hstack', fun t' block hblock ↦ ?_⟩, h.placed, fun task ↦ ?_, fun task ↦ ?_⟩
  · rcases honly t' block hblock with hold | hmove
    · exact hplain t' block hold
    · cases move <;> rcases hmove with hmove | hmove <;> cases hmove <;> exact ⟨_, rfl⟩
  · rw [(hkept task).1]
    exact h.allocated task
  · rw [(hkept task).2]
    exact h.resumer task

omit [DecidableEq Θ] [DecidableEq ι] in
/-- A task that does not run gets another place. -/
theorem moved (h : Agrees s) {task : τ} (hplace : s.place task ≠ .running) {place : Place}
    (hnew : place ≠ .running) {coro : Coro.State Θ (Block τ ι)}
    (hstacked : ∀ stack, Stacked s.coro (base s.onThread) stack →
      Stacked coro (base s.onThread) stack)
    (hallocated : ∀ other, coro.allocated (.task other) = true ↔
      Function.update s.place task place other ≠ .absent)
    (hresumer : ∀ other, coro.resumer (.task other) = none) :
    Agrees { s with coro := coro, place := Function.update s.place task place } := by
  obtain ⟨stack, hstack, hplain⟩ := h.stacked
  refine ⟨⟨stack, hstacked stack hstack, hplain⟩, fun other ↦ ?_, hallocated, hresumer⟩
  refine Iff.trans ?_ (h.placed other)
  change Function.update s.place task place other = .running ↔ _
  rcases eq_or_ne other task with rfl | hne
  · rw [Function.update_self]
    exact ⟨fun hfalse ↦ absurd hfalse hnew, fun hfalse ↦ absurd hfalse hplace⟩
  · rw [Function.update_of_ne hne]

theorem spawn (h : Agrees s) {task : τ} (habsent : s.place task = .absent) :
    Agrees { s with
      coro := s.coro.make (.task task)
      place := Function.update s.place task .ready } := by
  have hfree : s.coro.allocated (.task task) = false := by
    rw [← Bool.not_eq_true, h.allocated task, not_not]
    exact habsent
  refine h.moved (by rw [habsent]; decide) (by decide) (fun _ hstack ↦ hstack.make hfree)
    (fun other ↦ ?_) fun other ↦ ?_
  · rcases eq_or_ne other task with rfl | hne
    · rw [Function.update_self]
      exact ⟨fun _ ↦ by decide, fun _ ↦ (s.coro.make_self _).2.2⟩
    · rw [Function.update_of_ne hne, (s.coro.make_block fun heq ↦ hne (Block.task.inj heq)).2]
      exact h.allocated other
  · rcases eq_or_ne other task with rfl | hne
    · exact Function.update_self ..
    · rw [(s.coro.make_block fun heq ↦ hne (Block.task.inj heq)).1]
      exact h.resumer other

omit [DecidableEq Θ] [DecidableEq ι] in
theorem wake (h : Agrees s) {task : τ} (hparked : s.place task = .parked) :
    Agrees { s with place := Function.update s.place task .ready } := by
  refine h.moved (by rw [hparked]; decide) (by decide) (fun _ hstack ↦ hstack) (fun other ↦ ?_)
    h.resumer
  rw [h.allocated other]
  rcases eq_or_ne other task with rfl | hne
  · rw [Function.update_self, hparked]
    decide
  · rw [Function.update_of_ne hne]

/-- Every step keeps the layers in agreement. -/
theorem step (h : Agrees s) {label : Θ × Action τ ι} (hfree : Free s label)
    (hstep : s.step label = some s') : Agrees s' := by
  obtain ⟨t, action⟩ := label
  cases action with
  | startWorker | stopWorker =>
    obtain ⟨-, hstep⟩ := Option.ite_none_right_eq_some.mp hstep
    cases hstep
    exact ⟨h.stacked, h.placed, h.allocated, h.resumer⟩
  | spawn task =>
    obtain ⟨habsent, hstep⟩ := Option.ite_none_right_eq_some.mp hstep
    cases hstep
    exact h.spawn habsent
  | wake task =>
    obtain ⟨hparked, hstep⟩ := Option.ite_none_right_eq_some.mp hstep
    cases hstep
    exact h.wake hparked
  | switch next leaving => exact h.switch hstep
  | coroutine move =>
    obtain ⟨coro, hmove, rfl⟩ := Option.map_eq_some_iff.mp hstep
    exact h.coroutine hfree hmove

end Agrees

section Runs

variable [DecidableEq Θ] [DecidableEq τ] [DecidableEq ι] {s : State Θ τ ι}

theorem agrees_of_reachable (h : (system Θ τ ι).ReachableUnder Free s) : Agrees s :=
  h.invariant (fun _ hinit ↦ hinit ▸ Agrees.initial) fun _ _ _ hagrees hfree hstep ↦
    hagrees.step hfree hstep

omit [DecidableEq Θ] [DecidableEq τ] [DecidableEq ι] in
/-- What encloses a context at a place of a thread is the task below all the coroutines there. -/
theorem encloses_place {stack : Θ → List (Block τ ι)}
    (hstack : Stacked s.coro (base s.onThread) stack)
    (hplain : ∀ t, ∀ block ∈ stack t, ∃ coroutine, block = .plain coroutine) {t : Θ}
    {rest : List (Block τ ι)} (hrest : rest <:+ stack t) (task : τ) :
    s.Encloses (top (base s.onThread t) rest) task ↔ s.onThread t = some task := by
  induction rest with
  | nil =>
    rw [top, base]
    cases s.onThread t with
    | none => exact ⟨fun h ↦ (by cases h), fun h ↦ by cases h⟩
    | some other =>
      constructor
      · intro h
        cases h
        rfl
      · intro h
        cases h
        exact .task task
  | cons block rest ih =>
    obtain ⟨coroutine, rfl⟩ := hplain t block (hrest.subset List.mem_cons_self)
    have hresumer := (hstack.linked t _ rest hrest).1
    rw [← ih ((List.suffix_cons _ rest).trans hrest)]
    constructor
    · rintro (_ | ⟨hcaller, hencloses⟩)
      rw [hresumer] at hcaller
      cases hcaller
      exact hencloses
    · exact .resumed hresumer

/-- **What encloses what runs on a thread is the task that the scheduler has put there.** -/
theorem encloses_iff (h : (system Θ τ ι).ReachableUnder Free s) (t : Θ) (task : τ) :
    s.Encloses (s.coro.current t) task ↔ s.onThread t = some task := by
  obtain ⟨stack, hstack, hplain⟩ := (agrees_of_reachable h).stacked
  rw [hstack.current t]
  exact encloses_place hstack hplain List.suffix_rfl task

end Runs

/-- A task resumes a coroutine, and the lookup on its worker yields the coroutine's block. -/
theorem coroutine_taken_for_task : ∃ s : State Unit Unit Unit,
    (system Unit Unit Unit).Reachable s ∧
      s.currentTask () = some (.coroutine (.plain ())) ∧ ¬ s.Right () := by
  let actions : List (Action Unit Unit) := [.startWorker, .spawn (), .switch (some ()) .yields,
    .coroutine (.make ()), .coroutine (.resume ())]
  let s := ((system Unit Unit Unit).run .initial (actions.map fun action ↦ ((), action))).get
    (by decide +kernel)
  have hreach : (system Unit Unit Unit).Reachable s :=
    System.reachable_of_run (s := State.initial) rfl (Option.some_get _).symm
  have hcurrent : s.coro.current () = .coroutine (.plain ()) := by decide +kernel
  have hworker : s.worker () = true := by decide +kernel
  exact ⟨s, hreach, by decide +kernel, State.not_right_of_inPlain ⟨hworker, (), hcurrent⟩⟩

end Stackfull.Sched.CurrentTask
