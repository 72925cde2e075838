import Mathlib.Tactic.Common

/-!
# Loops that leave from the middle

`for (;;)` with `return` and `continue` inside: one pass over the body either goes on with new
locals or returns. `loop` makes at most so many passes. A loop whose passes are those of another
one, seen through a map of the locals, returns what the other returns (`loop_map`).
-/

set_option autoImplicit false
set_option relaxedAutoImplicit false
set_option linter.dupNamespace false

namespace Stackfull.Lib

universe u v w x

variable {σ : Type u} {ρ : Type v} {σ' : Type w} {ρ' : Type x}

/-- At most so many passes over the body. -/
def loop (body : σ → σ ⊕ ρ) : ℕ → σ → Option ρ
  | 0, _ => none
  | passes + 1, s =>
    match body s with
    | .inl t => loop body passes t
    | .inr r => some r

/-- The passes of one loop are those of another, under a map. -/
theorem loop_map {body : σ → σ ⊕ ρ} {body' : σ' → σ' ⊕ ρ'} (I : σ → Prop) (f : σ → σ') (g : ρ → ρ')
    (hstep : ∀ s t, I s → body s = .inl t → I t)
    (hmap : ∀ s, I s → body' (f s) = (body s).map f g) (passes : ℕ) {s : σ} (hs : I s) :
    loop body' passes (f s) = (loop body passes s).map g := by
  induction passes generalizing s with
  | zero => rfl
  | succ passes ih =>
    simp only [loop, hmap s hs]
    cases hbody : body s with
    | inl t => exact ih (hstep s t hs hbody)
    | inr r => rfl

end Stackfull.Lib
