import Stackfull.Lib.Located

/-!
# Who holds which item

`Custody contents known` says that the items in `known` are each held at exactly one position of
exactly one list, and that no other item is held anywhere. Items come in (`Custody.enter`), change
hands (`Custody.move`) and go out (`Custody.leave`).
-/

set_option autoImplicit false
set_option relaxedAutoImplicit false
set_option linter.dupNamespace false

namespace Stackfull.Lib

universe u v

variable {P : Type u} {τ : Type v} [DecidableEq P] [DecidableEq τ]

/-- Every known item is held at one position of one list, and no other item is held. -/
structure Custody (contents : P → List τ) (known : List τ) : Prop where
  nodup : known.Nodup
  located : ∃ place : τ → Option P, Located contents place ∧ ∀ x, x ∈ known ↔ (place x).isSome

namespace Custody

variable {contents : P → List τ} {known : List τ} {p q : P} {x : τ} {rest : List τ}

theorem mem_known (h : Custody contents known) (hx : x ∈ contents p) : x ∈ known := by
  obtain ⟨place, hlocated, hknown⟩ := h.located
  rw [hknown, hlocated.mem_iff.mp hx]
  rfl

theorem nodup_contents (h : Custody contents known) (p : P) : (contents p).Nodup := by
  obtain ⟨place, hlocated, -⟩ := h.located
  exact hlocated.nodup

theorem eq_of_mem (h : Custody contents known) (hp : x ∈ contents p) (hq : x ∈ contents q) :
    p = q := by
  obtain ⟨place, hlocated, -⟩ := h.located
  exact Option.some.inj ((hlocated.mem_iff.mp hp).symm.trans (hlocated.mem_iff.mp hq))

/-- Each known item has one holder. -/
theorem existsUnique (h : Custody contents known) (hx : x ∈ known) : ∃! p, x ∈ contents p := by
  obtain ⟨place, hlocated, hknown⟩ := h.located
  obtain ⟨p, hp⟩ := Option.isSome_iff_exists.mp ((hknown x).mp hx)
  have hmem := hlocated.mem_iff.mpr hp
  exact ⟨p, hmem, fun q hq ↦ h.eq_of_mem hq hmem⟩

theorem nil : Custody (fun _ : P ↦ ([] : List τ)) [] :=
  ⟨List.nodup_nil, fun _ ↦ none, fun _ _ ↦ rfl, fun _ ↦ by simp⟩

/-- An item changes hands. -/
theorem move (h : Custody contents known) (hp : (contents p).Perm (x :: rest)) (hpq : p ≠ q) :
    Custody (Function.update (Function.update contents p rest) q (x :: contents q)) known := by
  obtain ⟨place, hlocated, hknown⟩ := h.located
  have hx : x ∈ contents p := hp.mem_iff.mpr List.mem_cons_self
  refine ⟨h.nodup, Function.update place x (some q), hlocated.transfer (hlocated.mem_iff.mp hx) hpq ?_ ?_ ?_, fun y ↦ ?_⟩
  · rwa [Function.update_of_ne hpq, Function.update_self]
  · rw [Function.update_self]
  · exact fun r hrp hrq ↦ by rw [Function.update_of_ne hrq, Function.update_of_ne hrp]
  · rcases eq_or_ne y x with rfl | hne
    · rw [Function.update_self]
      exact ⟨fun _ ↦ rfl, fun _ ↦ h.mem_known hx⟩
    · rw [Function.update_of_ne hne]
      exact hknown y

/-- An item comes in. -/
theorem enter (h : Custody contents known) (hx : x ∉ known) :
    Custody (Function.update contents q (x :: contents q)) (x :: known) := by
  obtain ⟨place, hlocated, hknown⟩ := h.located
  have hnone : place x = none := by
    rw [hknown, Option.not_isSome_iff_eq_none] at hx
    exact hx
  refine ⟨List.nodup_cons.mpr ⟨hx, h.nodup⟩, Function.update place x (some q),
    hlocated.enter hnone ?_ ?_, fun y ↦ ?_⟩
  · rw [Function.update_self]
  · exact fun r hrq ↦ Function.update_of_ne hrq _ _
  · rcases eq_or_ne y x with rfl | hne
    · rw [Function.update_self]
      exact ⟨fun _ ↦ rfl, fun _ ↦ List.mem_cons_self⟩
    · rw [Function.update_of_ne hne, List.mem_cons, ← hknown y]
      exact ⟨fun hy ↦ hy.resolve_left hne, .inr⟩

/-- An item goes out. -/
theorem leave (h : Custody contents known) (hp : (contents p).Perm (x :: rest)) :
    Custody (Function.update contents p rest) (known.erase x) := by
  obtain ⟨place, hlocated, hknown⟩ := h.located
  have hx : x ∈ contents p := hp.mem_iff.mpr List.mem_cons_self
  refine ⟨h.nodup.erase x, Function.update place x none, hlocated.leave (hlocated.mem_iff.mp hx) ?_ ?_, fun y ↦ ?_⟩
  · rwa [Function.update_self]
  · exact fun r hrp ↦ Function.update_of_ne hrp _ _
  · rw [h.nodup.mem_erase_iff]
    rcases eq_or_ne y x with rfl | hne
    · rw [Function.update_self]
      exact ⟨fun hy ↦ absurd rfl hy.1, fun hy ↦ by cases hy⟩
    · rw [Function.update_of_ne hne, ← hknown y]
      exact ⟨And.right, fun hy ↦ ⟨hne, hy⟩⟩

end Custody

end Stackfull.Lib
