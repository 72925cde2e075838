import Mathlib.Logic.Function.Basic
import Mathlib.Tactic.Common

/-!
# Total store order

The memory model of the x86: each thread has a first-in, first-out buffer of the stores it has
issued and memory has not received yet. A load answers from the thread's own view, which is memory
with the thread's pending stores applied in order; a store enters the buffer; the oldest store of a
buffer reaches memory at any later moment; an atomic read-modify-write waits until the buffer of
its thread is empty and then changes memory in one step.

The memory `σ` and the stores `ω` are arbitrary: `apply` says what a store does to memory.
-/

set_option autoImplicit false
set_option relaxedAutoImplicit false
set_option linter.dupNamespace false

namespace Stackfull.Lib

universe u v w

/-- Shared memory and the store buffers of the threads `κ`. -/
structure Tso (κ : Type u) (σ : Type v) (ω : Type w) where
  memory : σ
  buffer : κ → List ω

namespace Tso

variable {κ : Type u} {σ : Type v} {ω : Type w} [DecidableEq κ]

/-- Every buffer is empty. -/
def Drained (m : Tso κ σ ω) : Prop :=
  ∀ t, m.buffer t = []

/-- A store enters the buffer of its thread. -/
def store (m : Tso κ σ ω) (t : κ) (w : ω) : Tso κ σ ω :=
  { m with buffer := Function.update m.buffer t (m.buffer t ++ [w]) }

/-- A read-modify-write of memory, once the buffer of its thread is empty. -/
def modify (m : Tso κ σ ω) (t : κ) (f : σ → σ) : Option (Tso κ σ ω) :=
  if m.buffer t = [] then some { m with memory := f m.memory } else none

@[simp] theorem store_memory (m : Tso κ σ ω) (t : κ) (w : ω) : (m.store t w).memory = m.memory :=
  rfl

theorem store_buffer (m : Tso κ σ ω) (t : κ) (w : ω) :
    (m.store t w).buffer = Function.update m.buffer t (m.buffer t ++ [w]) :=
  rfl

omit [DecidableEq κ] in
/-- A read-modify-write happens on an empty buffer and touches no buffer. -/
theorem modify_eq_some_iff {m next : Tso κ σ ω} {t : κ} {f : σ → σ} :
    m.modify t f = some next ↔ m.buffer t = [] ∧ next = { m with memory := f m.memory } := by
  unfold modify
  split_ifs with hempty
  · simp [hempty, eq_comm]
  · simp [hempty]

variable (apply : ω → σ → σ)

/-- What a thread sees: memory with its own pending stores applied. -/
def view (m : Tso κ σ ω) (t : κ) : σ :=
  (m.buffer t).foldl (fun memory w ↦ apply w memory) m.memory

/-- The oldest store of a thread reaches memory. -/
def drain (m : Tso κ σ ω) (t : κ) : Option (Tso κ σ ω) :=
  match m.buffer t with
  | [] => none
  | w :: rest => some { memory := apply w m.memory, buffer := Function.update m.buffer t rest }

omit [DecidableEq κ] in
/-- A thread with nothing pending sees memory. -/
theorem view_of_empty {m : Tso κ σ ω} {t : κ} (hempty : m.buffer t = []) :
    m.view apply t = m.memory := by
  rw [view, hempty]
  rfl

omit [DecidableEq κ] in
/-- A part of memory that no store changes looks to every thread as it is. -/
theorem view_field {β : Type*} (field : σ → β) (m : Tso κ σ ω) (t : κ)
    (hkeeps : ∀ w ∈ m.buffer t, ∀ memory, field (apply w memory) = field memory) :
    field (m.view apply t) = field m.memory := by
  unfold view
  generalize m.buffer t = pending at hkeeps
  generalize m.memory = memory
  induction pending generalizing memory with
  | nil => rfl
  | cons w rest ih =>
    rw [List.foldl_cons, ih (fun w hw ↦ hkeeps w (List.mem_cons_of_mem _ hw))]
    exact hkeeps w List.mem_cons_self memory

/-- A drain takes the head of a buffer and applies it. -/
theorem drain_eq_some_iff {m next : Tso κ σ ω} {t : κ} :
    m.drain apply t = some next ↔
      ∃ w rest, m.buffer t = w :: rest ∧
        next = { memory := apply w m.memory, buffer := Function.update m.buffer t rest } := by
  unfold drain
  cases hbuffer : m.buffer t with
  | nil => simp
  | cons w rest => simp [eq_comm]

end Tso

end Stackfull.Lib
