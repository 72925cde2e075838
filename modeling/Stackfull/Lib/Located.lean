import Mathlib.Data.List.Count
import Mathlib.Data.List.Nodup
import Mathlib.Logic.Function.Basic
import Mathlib.Tactic.Common

/-!
# Items that are in one place each

`Located contents place` says of a family of lists that every item is at exactly one position of the
list of its place, and in no list if it has none. It is kept by moves of a batch from one list to
another (`Located.shift`) and by a single item that enters, leaves or changes lists
(`Located.shiftOne`). Both moves are stated by counting, so that the order inside the lists does not
matter; `Located.transfer`, `Located.enter` and `Located.leave` are the second with the lists given
up to order.
-/

set_option autoImplicit false
set_option relaxedAutoImplicit false
set_option linter.dupNamespace false

namespace Stackfull.Lib

universe u v

variable {P : Type u} {τ : Type v} [DecidableEq P] [DecidableEq τ]

/-- Every item is at one position of the list of its place, and in no other list. -/
def Located (contents : P → List τ) (place : τ → Option P) : Prop :=
  ∀ p x, (contents p).count x = if place x = some p then 1 else 0

variable {contents contents' : P → List τ} {place : τ → Option P} {p q : P} {x : τ}

theorem Located.mem_iff (h : Located contents place) : x ∈ contents p ↔ place x = some p := by
  rw [← List.count_pos_iff, h p x]
  split_ifs with hp <;> simp [hp]

theorem Located.nodup (h : Located contents place) : (contents p).Nodup := by
  rw [List.nodup_iff_count_le_one]
  intro x
  rw [h p x]
  split_ifs <;> omega

/-- A batch of items of one list moves to another. -/
structure Shift (contents contents' : P → List τ) (p q : P) (xs : List τ) : Prop where
  mem : ∀ x ∈ xs, x ∈ contents p
  count : ∀ r x, (contents' r).count x + (if r = p then xs.count x else 0) =
    (contents r).count x + (if r = q then xs.count x else 0)

theorem Located.shift (h : Located contents place) {xs : List τ}
    (hshift : Shift contents contents' p q xs) :
    Located contents' fun x ↦ if x ∈ xs then some q else place x := by
  intro r x
  have hcount := hshift.count
  by_cases hx : x ∈ xs
  · have hplace := h.mem_iff.mp (hshift.mem x hx)
    have hpos := List.count_pos_iff.mpr hx
    have hr := hcount r x
    have hp := hcount p x
    rw [h r x, hplace] at hr
    rw [h p x, hplace] at hp
    simp only [hx, if_true, Option.some.injEq] at hr hp ⊢
    grind
  · have hzero := List.count_eq_zero.mpr hx
    have hr := hcount r x
    simp only [hzero, hx, if_false, ite_self, Nat.add_zero] at hr ⊢
    exact hr.trans (h r x)

/-- One item changes its list, enters one or leaves one. -/
def ShiftOne (contents contents' : P → List τ) (old new : Option P) (x : τ) : Prop :=
  ∀ r y, (contents' r).count y + (if old = some r ∧ y = x then 1 else 0) =
    (contents r).count y + (if new = some r ∧ y = x then 1 else 0)

theorem Located.shiftOne (h : Located contents place) {new : Option P}
    (hshift : ShiftOne contents contents' (place x) new x) :
    Located contents' (Function.update place x new) := by
  intro r y
  have hr := hshift r y
  rw [h r y] at hr
  by_cases hy : y = x
  · subst hy
    simp only [and_true, Function.update_self] at hr ⊢
    split_ifs at hr ⊢ <;> omega
  · simp only [hy, and_false, if_false, Nat.add_zero, Function.update_of_ne hy] at hr ⊢
    exact hr

/-- One item enters a list at its end. -/
theorem ShiftOne.enter (hq : contents' q = contents q ++ [x])
    (hrest : ∀ r, r ≠ q → contents' r = contents r) :
    ShiftOne contents contents' none (some q) x := by
  intro r y
  rcases eq_or_ne r q with rfl | hr
  · rcases eq_or_ne y x with rfl | hy
    · simp [hq]
    · simp [hq, hy, hy.symm]
  · simp [hrest r hr, hr.symm]

/-- The only item of a list leaves it. -/
theorem ShiftOne.leave (hp : contents p = [x]) (hp' : contents' p = [])
    (hrest : ∀ r, r ≠ p → contents' r = contents r) :
    ShiftOne contents contents' (some p) none x := by
  intro r y
  rcases eq_or_ne r p with rfl | hr
  · rcases eq_or_ne y x with rfl | hy
    · simp [hp, hp']
    · simp [hp, hp', hy, hy.symm]
  · simp [hrest r hr, hr.symm]

/-- An item goes from one list to another by way of a third. -/
theorem ShiftOne.trans {contents'' : P → List τ} {old mid new : Option P}
    (hfirst : ShiftOne contents contents' old mid x)
    (hsecond : ShiftOne contents' contents'' mid new x) :
    ShiftOne contents contents'' old new x := by
  intro r y
  have hleave := hfirst r y
  have henter := hsecond r y
  omega

/-- An item enters a list and then leaves another one. -/
theorem ShiftOne.append {contents'' : P → List τ} {old new : Option P}
    (hnew : ShiftOne contents contents' none new x)
    (hold : ShiftOne contents' contents'' old none x) :
    ShiftOne contents contents'' old new x := by
  intro r y
  have henter := hnew r y
  have hleave := hold r y
  simp only [reduceCtorEq, false_and, if_false, Nat.add_zero] at henter hleave
  exact hleave.trans henter

/-- One item goes from one list to another. -/
theorem Located.transfer (h : Located contents place) (hx : place x = some p) (hpq : p ≠ q)
    (hp : (contents p).Perm (x :: contents' p)) (hq : (contents' q).Perm (x :: contents q))
    (hrest : ∀ r, r ≠ p → r ≠ q → contents' r = contents r) :
    Located contents' (Function.update place x (some q)) := by
  refine h.shiftOne fun r y ↦ ?_
  rw [hx]
  simp only [Option.some.injEq]
  have hpcount := hp.count_eq y
  have hqcount := hq.count_eq y
  rw [List.count_cons] at hpcount hqcount
  by_cases hrp : r = p
  · subst hrp
    have hqr : ¬ (q = r ∧ y = x) := fun hh ↦ hpq hh.1.symm
    rw [if_neg hqr]
    simp only [true_and, beq_iff_eq, eq_comm (a := x)] at hpcount ⊢
    omega
  · by_cases hrq : r = q
    · subst hrq
      have hpr : ¬ (p = r ∧ y = x) := fun hh ↦ hpq hh.1
      rw [if_neg hpr]
      simp only [true_and, beq_iff_eq, eq_comm (a := x)] at hqcount ⊢
      omega
    · rw [if_neg fun hh ↦ hrp hh.1.symm, if_neg fun hh ↦ hrq hh.1.symm, hrest r hrp hrq]

/-- One item enters a list. -/
theorem Located.enter (h : Located contents place) (hx : place x = none)
    (hq : (contents' q).Perm (x :: contents q)) (hrest : ∀ r, r ≠ q → contents' r = contents r) :
    Located contents' (Function.update place x (some q)) := by
  refine h.shiftOne fun r y ↦ ?_
  rw [hx]
  have hqcount := hq.count_eq y
  rw [List.count_cons] at hqcount
  by_cases hrq : r = q
  · subst hrq
    simp only [true_and, beq_iff_eq, eq_comm (a := x)] at hqcount ⊢
    simpa using hqcount
  · simp [hrest r hrq, Ne.symm hrq]

/-- One item leaves its list. -/
theorem Located.leave (h : Located contents place) (hx : place x = some p)
    (hp : (contents p).Perm (x :: contents' p)) (hrest : ∀ r, r ≠ p → contents' r = contents r) :
    Located contents' (Function.update place x none) := by
  refine h.shiftOne fun r y ↦ ?_
  rw [hx]
  have hpcount := hp.count_eq y
  rw [List.count_cons] at hpcount
  by_cases hrp : r = p
  · subst hrp
    simp only [true_and, beq_iff_eq, eq_comm (a := x)] at hpcount ⊢
    simpa using hpcount.symm
  · simp [hrest r hrp, Ne.symm hrp]

end Stackfull.Lib
