import Mathlib.Data.Set.Function
import Mathlib.Tactic.Common

/-!
# Code that keeps to a part of the memory

An instruction reads and writes the part of the memory that it uses, which depends on the registers
alone (`Machine`). Code is confined to a set of cells if no instruction of its run uses others. Such
code does the same whatever is in the other cells, and leaves them (`Confined.congr`,
`Confined.frame`). So it may be run an instruction at a time while others write to other cells:
`Heading` says where a run under way will end, and is kept by its own steps (`Heading.step`) and by
those of others (`Heading.interfere`).
-/

set_option autoImplicit false
set_option relaxedAutoImplicit false
set_option linter.dupNamespace false

namespace Stackfull.Lib

universe u v w z

/-- What the instructions do to the registers and the memory, and the cells that they use. -/
structure Machine (ι : Type u) (γ : Type v) (α : Type w) (β : Type z) where
  exec : ι → γ × (α → β) → γ × (α → β)
  uses : ι → γ → Set α
  congr : ∀ i c m m', Set.EqOn m m' (uses i c) →
    (exec i (c, m)).1 = (exec i (c, m')).1 ∧
      Set.EqOn (exec i (c, m)).2 (exec i (c, m')).2 (uses i c)
  frame : ∀ i c m, Set.EqOn (exec i (c, m)).2 m (uses i c)ᶜ

namespace Machine

variable {ι : Type u} {γ : Type v} {α : Type w} {β : Type z} {M : Machine ι γ α β}
  {S : Set α} {i : ι} {code rest : List ι} {c : γ} {m m' : α → β} {x y : γ × (α → β)}

/-- Straight-line code. -/
def run (M : Machine ι γ α β) (code : List ι) (x : γ × (α → β)) : γ × (α → β) :=
  code.foldl (fun x i ↦ M.exec i x) x

@[simp] theorem run_nil : M.run [] x = x := rfl

@[simp] theorem run_cons : M.run (i :: rest) x = M.run rest (M.exec i x) := rfl

theorem run_append : M.run (code ++ rest) x = M.run rest (M.run code x) :=
  List.foldl_append ..

/-- An instruction that uses cells of a set alone sees and changes no others. -/
theorem exec_congr (hS : M.uses i c ⊆ S) (h : Set.EqOn m m' S) :
    (M.exec i (c, m)).1 = (M.exec i (c, m')).1 ∧
      Set.EqOn (M.exec i (c, m)).2 (M.exec i (c, m')).2 S := by
  obtain ⟨hregs, hcells⟩ := M.congr i c m m' (h.mono hS)
  refine ⟨hregs, fun a ha ↦ ?_⟩
  by_cases hused : a ∈ M.uses i c
  · exact hcells hused
  · rw [M.frame i c m hused, M.frame i c m' hused]
    exact h ha

/-- No instruction of the run uses a cell outside. -/
def Confined (M : Machine ι γ α β) (S : Set α) : List ι → γ × (α → β) → Prop
  | [], _ => True
  | i :: rest, x => M.uses i x.1 ⊆ S ∧ M.Confined S rest (M.exec i x)

theorem Confined.mono {T : Set α} (hST : S ⊆ T) (h : M.Confined S code x) :
    M.Confined T code x := by
  induction code generalizing x with
  | nil => exact trivial
  | cons i rest ih => exact ⟨h.1.trans hST, ih h.2⟩

theorem Confined.append (h : M.Confined S code x) (h' : M.Confined S rest (M.run code x)) :
    M.Confined S (code ++ rest) x := by
  induction code generalizing x with
  | nil => exact h'
  | cons i code ih => exact ⟨h.1, ih h.2 h'⟩

/-- **Other cells make no difference to confined code.** -/
theorem Confined.congr (h : M.Confined S code (c, m)) (heq : Set.EqOn m m' S) :
    M.Confined S code (c, m') ∧ (M.run code (c, m)).1 = (M.run code (c, m')).1 ∧
      Set.EqOn (M.run code (c, m)).2 (M.run code (c, m')).2 S := by
  induction code generalizing c m m' with
  | nil => exact ⟨trivial, rfl, heq⟩
  | cons i rest ih =>
    obtain ⟨hregs, hcells⟩ := exec_congr h.1 heq
    have hsplit : M.exec i (c, m') = ((M.exec i (c, m)).1, (M.exec i (c, m')).2) :=
      Prod.ext hregs.symm rfl
    obtain ⟨hconfined, hrun⟩ := ih h.2 hcells
    rw [← hsplit] at hconfined hrun
    exact ⟨⟨h.1, hconfined⟩, hrun⟩

/-- **Confined code leaves the other cells.** -/
theorem Confined.frame (h : M.Confined S code x) : Set.EqOn (M.run code x).2 x.2 Sᶜ := by
  induction code generalizing x with
  | nil => exact fun _ _ ↦ rfl
  | cons i rest ih =>
    intro a ha
    rw [run_cons, ih h.2 ha]
    exact M.frame i x.1 x.2 fun hused ↦ ha (h.1 hused)

/-! ### Runs under way -/

/-- What is left of the code ends with these registers, and with these cells in the set. -/
structure Heading (M : Machine ι γ α β) (S : Set α) (code : List ι) (x y : γ × (α → β)) : Prop where
  confined : M.Confined S code x
  regs : (M.run code x).1 = y.1
  cells : Set.EqOn (M.run code x).2 y.2 S

theorem Confined.heading (h : M.Confined S code x) : M.Heading S code x (M.run code x) :=
  ⟨h, rfl, fun _ _ ↦ rfl⟩

/-- **An instruction of the code leads there.** -/
theorem Heading.step (h : M.Heading S (i :: rest) x y) : M.Heading S rest (M.exec i x) y :=
  ⟨h.confined.2, h.regs, h.cells⟩

/-- The instruction changes no cell outside. -/
theorem Heading.frame (h : M.Heading S (i :: rest) x y) : Set.EqOn (M.exec i x).2 x.2 Sᶜ :=
  fun _ ha ↦ M.frame i x.1 x.2 fun hused ↦ ha (h.confined.1 hused)

/-- **The steps of others do not lead away, as long as they write elsewhere.** -/
theorem Heading.interfere (h : M.Heading S code (c, m) y) (heq : Set.EqOn m m' S) :
    M.Heading S code (c, m') y := by
  obtain ⟨hconfined, hregs, hcells⟩ := h.confined.congr heq
  exact ⟨hconfined, hregs.symm.trans h.regs, fun a ha ↦ (hcells ha).symm.trans (h.cells ha)⟩

end Machine

end Stackfull.Lib
