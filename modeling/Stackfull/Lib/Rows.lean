import Mathlib.Data.List.Infix
import Mathlib.Data.List.TakeWhile
import Mathlib.Tactic.Common

/-!
# Rows of events in a log

A log is a list with the newest event first. `RowsWithin p c n` says that no stretch of it whose
events all meet `p` has more than `n` events that meet `c`. A log grows at its head, so what a new
event can break is the row that stands there (`RowsWithin.cons`). Marks that come often enough cut
a log into rows, so they bound how much there is between them (`RowsWithin.countP_le`).
-/

set_option autoImplicit false
set_option relaxedAutoImplicit false
set_option linter.dupNamespace false

namespace Stackfull.Lib

universe u

variable {α : Type u} {p c : α → Bool} {n : ℕ}

/-- In no stretch of events that all meet `p` do more than `n` meet `c`. -/
def RowsWithin (p c : α → Bool) (n : ℕ) (log : List α) : Prop :=
  ∀ row, row <:+: log → (∀ a ∈ row, p a = true) → row.countP c ≤ n

/-- How many events meet `c` since one did not meet `p`. -/
def lastRow (p c : α → Bool) (log : List α) : ℕ := (log.takeWhile p).countP c

theorem lastRow_cons_of_not {a : α} (log : List α) (h : p a = false) :
    lastRow p c (a :: log) = 0 := by
  rw [lastRow, List.takeWhile_cons, h]
  rfl

theorem lastRow_cons {a : α} (log : List α) (h : p a = true) :
    lastRow p c (a :: log) = lastRow p c log + if c a then 1 else 0 := by
  rw [lastRow, List.takeWhile_cons, h, if_pos rfl, List.countP_cons]
  rfl

theorem lastRow_cons_le (a : α) (log : List α) : lastRow p c (a :: log) ≤ lastRow p c log + 1 := by
  by_cases h : p a = true
  · rw [lastRow_cons log h]
    split <;> omega
  · rw [lastRow_cons_of_not log (by simpa using h)]
    exact Nat.zero_le _

/-- A stretch at the head of the log that meets `p` is part of the row that stands there. -/
theorem countP_le_lastRow {row rest : List α} (h : ∀ a ∈ row, p a = true) :
    row.countP c ≤ lastRow p c (row ++ rest) := by
  rw [lastRow, List.takeWhile_append_of_pos h, List.countP_append]
  exact Nat.le_add_right _ _

namespace RowsWithin

variable {log : List α}

theorem nil : RowsWithin p c n [] := fun row hrow _ ↦ by
  rw [List.infix_nil.mp hrow]
  exact Nat.zero_le _

theorem of_infix {window : List α} (h : RowsWithin p c n log) (hwindow : window <:+: log) :
    RowsWithin p c n window :=
  fun row hrow ↦ h row (hrow.trans hwindow)

theorem lastRow_le (h : RowsWithin p c n log) : lastRow p c log ≤ n :=
  h _ (List.takeWhile_prefix p).isInfix fun _ ha ↦ List.mem_takeWhile_imp ha

/-- A new event can only make the last row too long. -/
theorem cons {a : α} (h : RowsWithin p c n log) (hrow : lastRow p c (a :: log) ≤ n) :
    RowsWithin p c n (a :: log) := by
  intro row hinfix hall
  rcases List.infix_cons_iff.mp hinfix with ⟨rest, hrest⟩ | hinfix
  · have hle : row.countP c ≤ lastRow p c (row ++ rest) := countP_le_lastRow hall
    rw [hrest] at hle
    exact Nat.le_trans hle hrow
  · exact h row hinfix hall

/-- An event that does not meet `p` breaks nothing. -/
theorem cons_of_not {a : α} (h : RowsWithin p c n log) (ha : p a = false) :
    RowsWithin p c n (a :: log) :=
  h.cons (by rw [lastRow_cons_of_not log ha]; exact Nat.zero_le _)

/-- Marks bound what lies between them. -/
theorem countP_le {mark : α → Bool} (h : RowsWithin (fun a ↦ !mark a) c n log) :
    log.countP (fun a ↦ mark a || c a) ≤
      lastRow (fun a ↦ !mark a) c log + log.countP mark * (n + 1) := by
  induction log with
  | nil => exact Nat.zero_le _
  | cons a log ih =>
    have htail := h.of_infix (List.suffix_cons a log).isInfix
    have hle := ih htail
    cases hmark : mark a with
    | false =>
      rw [lastRow_cons log (by rw [hmark]; rfl), List.countP_cons, List.countP_cons, hmark,
        Bool.false_or, if_neg Bool.false_ne_true, Nat.add_zero]
      omega
    | true =>
      have hrow := htail.lastRow_le
      rw [lastRow_cons_of_not log (by rw [hmark]; rfl), List.countP_cons, List.countP_cons, hmark,
        Bool.true_or, if_pos rfl, Nat.succ_mul]
      omega

end RowsWithin

end Stackfull.Lib
