import Mathlib.Logic.Function.Basic
import Mathlib.Tactic.Common

/-!
# Views of what parties do

A step of a system moves one party, sometimes two, and an invariant reads the points the parties
stand at through a view, which most moves do not change. These lemmas say what a view shows of
everybody after a move.
-/

set_option autoImplicit false
set_option relaxedAutoImplicit false
set_option linter.dupNamespace false

namespace Stackfull.Lib

universe u v w

variable {ι : Type u} {α : Type v} {β : Type w} [DecidableEq ι] {f : α → β} {b b' : β}
  {points : ι → α} {p q : ι} {a a' : α}

/-- Nothing changes for anybody when the party moves between points that look the same. -/
theorem view_update (hold : f (points p) = b) (hnew : f a = b) (r : ι) :
    f (Function.update points p a r) = f (points r) := by
  rcases eq_or_ne r p with rfl | hne
  · rw [Function.update_self, hnew, hold]
  · rw [Function.update_of_ne hne]

/-- The same for a step that moves two parties. -/
theorem view_update_pair (hold : f (points p) = b) (hnew : f a = b)
    (hold' : q ≠ p → f (points q) = b') (hnew' : f a' = b') (r : ι) :
    f (Function.update (Function.update points q a') p a r) = f (points r) := by
  rcases eq_or_ne r p with rfl | hne
  · rw [Function.update_self, hnew, hold]
  · rw [Function.update_of_ne hne]
    rcases eq_or_ne r q with rfl | hne'
    · rw [Function.update_self, hnew', hold' hne]
    · rw [Function.update_of_ne hne']

/-- A move shows as an update of the view. -/
theorem view_move {view : ι → β} (hold : ∀ r, f (points r) = view r) (hnew : f a = b) (r : ι) :
    f (Function.update points p a r) = Function.update view p b r := by
  rcases eq_or_ne r p with rfl | hne
  · rw [Function.update_self, Function.update_self, hnew]
  · rw [Function.update_of_ne hne, Function.update_of_ne hne, hold]

/-- What holds of everybody still does when it holds at the new point. -/
theorem forall_update {P : ι → α → Prop} (hold : ∀ r, P r (points r)) (hnew : P p a) (r : ι) :
    P r (Function.update points p a r) := by
  rcases eq_or_ne r p with rfl | hne
  · rwa [Function.update_self]
  · rw [Function.update_of_ne hne]
    exact hold r

/-- Who stands at a point that nobody moved to stood there before. -/
theorem eq_of_update (hnew : a ≠ a') (hr : Function.update points p a q = a') : points q = a' := by
  rcases eq_or_ne q p with rfl | hne
  · rw [Function.update_self] at hr
    exact absurd hr hnew
  · rwa [Function.update_of_ne hne] at hr

end Stackfull.Lib
