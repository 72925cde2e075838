import Stackfull.Sched.Timekeeper

/-!
# Timer entries that are added, cancelled and fired at once

`TimerQueue` (`TimerQueue.cpp`): `add`, `addUnlessCancelled`, `cancel`, `fireExpired`,
`fireCallbacksAndClose` and `fireAndUnlock`, called by any number of threads on any queue.

What a function does between `lock` and `unlock` is one step, the lock and the unlock are steps of
their own, and the callback is called after the unlock. A callback may itself call these functions,
so a thread has a stack of calls. An entry is one object that is added once; a callback's entry has
its queue before anything may cancel it. The mirrors of a queue (`publishLocked`) are left out.

`submitted`, `called`, `cancels`, `refused` and `closes` are not in the code: whether an entry's add
was called, how often its callback was called (or its task woken), how many cancels of it returned
true, how many adds of it returned false, and whether a `fireCallbacksAndClose` has returned.
-/

set_option autoImplicit false
set_option relaxedAutoImplicit false
set_option linter.dupNamespace false

namespace Stackfull.Sched.CallbackTimers

open Stackfull.Lib
open Stackfull.Sched.Timekeeper (Config)

universe u v w

/-- What a thread does under a queue's lock. -/
inductive Work (ε : Type v) (T : Type w)
  | add (entry : ε)
  | addUnlessCancelled (entry : ε)
  | cancel (entry : ε)
  | fireExpired (now : T)
  | fireCallbacksAndClose
  deriving DecidableEq

/-- Where a call stands: before the lock, under it, before the unlock with the entry it has taken
out to fire, before the call of the callback (or the wake), or inside the callback. -/
inductive Frame (n : ℕ) (ε : Type v) (T : Type w)
  | lock (queue : Fin n) (work : Work ε T)
  | locked (queue : Fin n) (work : Work ε T)
  | unlock (queue : Fin n) (work : Work ε T) (fired : Option ε)
  | call (queue : Fin n) (work : Work ε T) (entry : ε)
  | callback (queue : Fin n) (work : Work ε T)
  deriving DecidableEq

/-- The queues, the entries and the threads. -/
structure State (n : ℕ) (α : Type u) (ε : Type v) (T : Type w) where
  heap : Fin n → IntrusiveHeap ε
  locked : Fin n → Bool
  closed : Fin n → Bool
  queue : ε → Option (Fin n)
  cancelled : ε → Bool
  fired : ε → Bool
  stack : α → List (Frame n ε T)
  submitted : ε → Bool
  called : ε → ℕ
  cancels : ε → ℕ
  refused : ε → ℕ
  closes : Fin n → Bool

/-- A step: an owner sets a callback entry's queue, a thread begins a call, or goes on. -/
inductive Action (n : ℕ) (α : Type u) (ε : Type v) (T : Type w)
  | construct (entry : ε) (queue : Fin n)
  | addTimer (thread : α) (entry : ε) (queue : Fin n)
  | addCallbackTimer (thread : α) (entry : ε)
  | cancelTimer (thread : α) (entry : ε)
  | fireExpired (thread : α) (queue : Fin n) (now : T)
  | fireCallbacksAndClose (thread : α) (queue : Fin n)
  | act (thread : α)

variable {n : ℕ} {α : Type u} {ε : Type v} {T : Type w}

/-- Nothing is queued. -/
def initial [Inhabited ε] : State n α ε T where
  heap := fun _ ↦ IntrusiveHeap.empty
  locked := fun _ ↦ false
  closed := fun _ ↦ false
  queue := fun _ ↦ none
  cancelled := fun _ ↦ false
  fired := fun _ ↦ false
  stack := fun _ ↦ []
  submitted := fun _ ↦ false
  called := fun _ ↦ 0
  cancels := fun _ ↦ 0
  refused := fun _ ↦ 0
  closes := fun _ ↦ false

/-- The thread is outside these functions, or in a callback. -/
def free : List (Frame n ε T) → Bool
  | [] | .callback _ _ :: _ => true
  | _ => false

namespace State

variable [DecidableEq α] [DecidableEq ε] [LinearOrder T]

/-- A thread's calls. -/
def goto (s : State n α ε T) (a : α) (stack : List (Frame n ε T)) : State n α ε T :=
  { s with stack := Function.update s.stack a stack }

/-- A thread begins a call. -/
def enter (s : State n α ε T) (a : α) (q : Fin n) (work : Work ε T) : Option (State n α ε T) :=
  if free (s.stack a) then some (s.goto a (.lock q work :: s.stack a)) else none

/-- A thread changes a heap. -/
def setHeap (s : State n α ε T) (q : Fin n) (heap : IntrusiveHeap ε) : State n α ε T :=
  { s with heap := Function.update s.heap q heap }

/-- An entry is taken out to be fired: `removeLocked` and the part of `fireAndUnlock` under the
lock. -/
def fire (c : Config ε T) (s : State n α ε T) (a : α) (q : Fin n) (work : Work ε T) (i : ℕ)
    (rest : List (Frame n ε T)) : State n α ε T :=
  { s.setHeap q ((s.heap q).removeAt c.deadline i) with
    fired := Function.update s.fired ((s.heap q).slot i) true }.goto a
      (.unlock q work (some ((s.heap q).slot i)) :: rest)

/-- What a thread does under a queue's lock. -/
def underLock (c : Config ε T) (s : State n α ε T) (a : α) (q : Fin n) (work : Work ε T)
    (rest : List (Frame n ε T)) : State n α ε T :=
  let done : State n α ε T → State n α ε T := fun s ↦ s.goto a (.unlock q work none :: rest)
  match work with
  | .add e =>
    done { s.setHeap q ((s.heap q).push c.deadline e) with
      fired := Function.update s.fired e false
      queue := Function.update s.queue e (some q) }
  | .addUnlessCancelled e =>
    if s.cancelled e || s.closed q then
      done { s with refused := Function.update s.refused e (s.refused e + 1) }
    else
      done { s.setHeap q ((s.heap q).push c.deadline e) with
        fired := Function.update s.fired e false }
  | .cancel e =>
    match (s.heap q).index e with
    | none => done { s with cancelled := Function.update s.cancelled e true }
    | some i =>
      done { s.setHeap q ((s.heap q).removeAt c.deadline i) with
        cancels := Function.update s.cancels e (s.cancels e + 1) }
  | .fireExpired now =>
    if (s.heap q).size = 0 ∨ now < c.deadline ((s.heap q).slot 0) then done s
    else s.fire c a q work 0 rest
  | .fireCallbacksAndClose =>
    match Timekeeper.State.firstCallback c (s.heap q) with
    | none => done { s with closed := Function.update s.closed q true }
    | some i =>
      { s with closed := Function.update s.closed q true }.fire c a q work i rest

/-- The next step of a thread's innermost call. -/
def act (c : Config ε T) (s : State n α ε T) (a : α) : Option (State n α ε T) :=
  match s.stack a with
  | [] => none
  | .lock q work :: rest =>
    if s.locked q then none
    else some ({ s with locked := Function.update s.locked q true }.goto a (.locked q work :: rest))
  | .locked q work :: rest => some (s.underLock c a q work rest)
  | .unlock q work (some e) :: rest =>
    some ({ s with locked := Function.update s.locked q false }.goto a (.call q work e :: rest))
  | .unlock q work none :: rest =>
    some ({ s with
      locked := Function.update s.locked q false
      closes := match work with
        | .fireCallbacksAndClose => Function.update s.closes q true
        | _ => s.closes }.goto a rest)
  | .call q work e :: rest =>
    some ({ s with called := Function.update s.called e (s.called e + 1) }.goto a
      (if c.callback e then .callback q work :: rest else .lock q work :: rest))
  | .callback q work :: rest => some (s.goto a (.lock q work :: rest))

end State

variable [DecidableEq α] [DecidableEq ε] [LinearOrder T]

/-- One step. -/
def step (c : Config ε T) (s : State n α ε T) : Action n α ε T → Option (State n α ε T)
  | .construct e q =>
    if c.callback e ∧ s.queue e = none then
      some { s with queue := Function.update s.queue e (some q) }
    else none
  | .addTimer a e q =>
    if c.callback e = false ∧ s.submitted e = false then
      { s with submitted := Function.update s.submitted e true }.enter a q (.add e)
    else none
  | .addCallbackTimer a e =>
    if c.callback e ∧ s.submitted e = false then
      (s.queue e).bind fun q ↦
        { s with submitted := Function.update s.submitted e true }.enter a q (.addUnlessCancelled e)
    else none
  | .cancelTimer a e => (s.queue e).bind fun q ↦ s.enter a q (.cancel e)
  | .fireExpired a q now => s.enter a q (.fireExpired now)
  | .fireCallbacksAndClose a q => s.enter a q .fireCallbacksAndClose
  | .act a => s.act c a

/-- The timer queues and their entries under every order of the threads' steps. -/
def system [Inhabited ε] (c : Config ε T) : System (State n α ε T) (Action n α ε T) where
  init s := s = initial
  step := step c

/-! ### What is promised of an entry -/

/-- The entry that a call is about to add. -/
def Frame.adds : Frame n ε T → Option ε
  | .lock _ (.add e) | .lock _ (.addUnlessCancelled e) | .locked _ (.add e)
  | .locked _ (.addUnlessCancelled e) => some e
  | _ => none

/-- The entry that a call has taken out and not called back yet. -/
def Frame.fires : Frame n ε T → Option ε
  | .unlock _ _ fired => fired
  | .call _ _ e => some e
  | _ => none

/-- The next step of a call touches the entry: everything under a lock touches the queued entries,
and an add or a cancel its own entry. -/
def Frame.touches (s : State n α ε T) (e : ε) : Frame n ε T → Prop
  | .locked q (.add f) | .locked q (.addUnlessCancelled f) | .locked q (.cancel f) =>
    e = f ∨ (s.heap q).Mem e
  | .locked q _ => (s.heap q).Mem e
  | _ => False

/-- An entry has at most one end: called, cancelled, or refused. It has one as soon as its add was
called and it is neither being added, nor queued, nor about to be called; then it is in no queue,
and nothing but a cancel of it touches it. A queue that was closed has no callback entry. -/
structure Contract (c : Config ε T) (s : State n α ε T) : Prop where
  once : ∀ e, s.called e + s.cancels e + s.refused e ≤ 1
  ends : ∀ e, s.submitted e = true → (∀ q, ¬ (s.heap q).Mem e) →
    (∀ a, ∀ f ∈ s.stack a, f.adds ≠ some e ∧ f.fires ≠ some e) →
    s.called e + s.cancels e + s.refused e = 1
  gone : ∀ e, 0 < s.called e + s.cancels e + s.refused e →
    (∀ q, ¬ (s.heap q).Mem e) ∧ ∀ a, ∀ f ∈ s.stack a, f.adds ≠ some e ∧ f.fires ≠ some e
  untouched : ∀ e, 0 < s.called e + s.cancels e → ∀ a, ∀ f ∈ s.stack a, f.touches s e →
    ∃ q, f = .locked q (.cancel e)
  closed : ∀ q, s.closes q = true →
    s.closed q = true ∧ ∀ e, c.callback e = true → ¬ (s.heap q).Mem e

end Stackfull.Sched.CallbackTimers
