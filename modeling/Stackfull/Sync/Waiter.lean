import Mathlib.Data.List.Basic
import Mathlib.Logic.Function.Basic
import Mathlib.Tactic.Common

/-!
# Who waits on a synchronisation primitive

`sync/include/stackfull/sync/detail/Waiter.h`. A `Waiter` is bound to one of three kinds of
blocked party: a scheduled task, a plain thread, or a callback. A task and a thread block in
`Waiter::wait` until the notifier stores `satisfied`; a callback is called by the notifier. Only a
task can leave `wait` through a forced unwind.

In the models of the primitives a waiter is named by the party it belongs to: a party has at most
one waiter in use, on its own stack or inside its operation. A `WaitList` is then the list of the
parties whose waiter is linked, first to last, and `Waiter::linked` is membership.
-/

set_option autoImplicit false
set_option relaxedAutoImplicit false
set_option linter.dupNamespace false

namespace Stackfull.Sync

universe u

/-- The three ways to wait. -/
inductive Kind
  | task
  | thread
  | callback
  deriving DecidableEq, Repr

/-- `EnqueueResult`: how queueing a callback waiter ended. -/
inductive EnqueueResult
  | ready
  | enqueued
  | cancelled
  deriving DecidableEq, Repr

/-- The waiters of a primitive in queue order. -/
abbrev WaitList (ι : Type u) := List ι

namespace WaitList

variable {ι : Type u}

/-- `WaitList::pushBack`. -/
def pushBack (list : WaitList ι) (waiter : ι) : WaitList ι :=
  list ++ [waiter]

/-- `WaitList::popFront`: the waiter taken, or none, and the list without it. -/
def popFront : WaitList ι → Option ι × WaitList ι
  | [] => (none, [])
  | waiter :: rest => (some waiter, rest)

/-- `WaitList::unlink`. -/
def unlink [DecidableEq ι] (list : WaitList ι) (waiter : ι) : WaitList ι :=
  list.erase waiter

/-- A list is what `popFront` takes followed by what it leaves. -/
theorem popFront_append (list : WaitList ι) :
    list = list.popFront.1.toList ++ list.popFront.2 := by
  cases list <;> rfl

/-- `popFront` takes nothing only from an empty list. -/
theorem popFront_none (list : WaitList ι) (h : list.popFront.1 = none) : list.popFront.2 = [] := by
  cases list with
  | nil => rfl
  | cons waiter rest => cases h

end WaitList

end Stackfull.Sync
