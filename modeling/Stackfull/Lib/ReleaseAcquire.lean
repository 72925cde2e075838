import Mathlib.Logic.Function.Basic
import Mathlib.Tactic.Common

/-!
# Release and acquire

A memory in which threads need not see the newest value of a location. A location keeps all its
messages, each with the time it was written at. A thread, and a message, has a view: for each
location the time of the oldest message that may still be read. A read takes any message that is
not older than that, a write goes to any free time that is newer, and an atomic read-modify-write
goes to the time right after the message that it reads. A release puts the view of the thread in the
message, and an acquire takes over the view of the message that it reads; a read-modify-write passes
on the view of the message that it reads.
-/

set_option autoImplicit false
set_option relaxedAutoImplicit false
set_option linter.dupNamespace false

namespace Stackfull.Lib

universe u v w

/-- A value that was written, and what its reader may no longer miss. -/
structure Message (X : Type v) (A : Type w) where
  value : A
  view : X → ℕ

/-- The messages of the locations `X`, and the views of the threads `Θ`. -/
structure ReleaseAcquire (Θ : Type u) (X : Type v) (V : X → Type w) where
  message : (x : X) → ℕ → Option (Message X (V x))
  view : Θ → X → ℕ

namespace ReleaseAcquire

variable {Θ : Type u} {X : Type v} {V : X → Type w} [DecidableEq Θ] [DecidableEq X]
  (m : ReleaseAcquire Θ X V) (thread : Θ) (x : X) (time : ℕ)

/-- The view of a thread that has come to this time at a location. -/
def reached : X → ℕ := Function.update (m.view thread) x time

/-- A thread has another view. -/
def setView (view : X → ℕ) : ReleaseAcquire Θ X V :=
  { m with view := Function.update m.view thread view }

/-- There is a new message. -/
def put (msg : Message X (V x)) : ReleaseAcquire Θ X V :=
  { m with message := Function.update m.message x (Function.update (m.message x) time (some msg)) }

/-- The view of a thread that takes over another, or does not. -/
def join (takes : Bool) (own other : X → ℕ) : X → ℕ :=
  if takes then fun y ↦ max (own y) (other y) else own

/-- A thread reads the message of this time. -/
def read (acquire : Bool) : Option (V x × ReleaseAcquire Θ X V) :=
  if m.view thread x ≤ time then
    (m.message x time).map fun msg ↦
      (msg.value, m.setView thread (join acquire (m.reached thread x time) msg.view))
  else none

/-- A thread writes at this time. -/
def write (value : V x) (release : Bool) : Option (ReleaseAcquire Θ X V) :=
  if m.view thread x < time ∧ (m.message x time).isNone then
    let own := m.reached thread x time
    let view := if release then own else Function.update (fun _ ↦ 0) x time
    some ((m.put x time ⟨value, view⟩).setView thread own)
  else none

/-- A thread reads the message of this time and replaces it. -/
def exchange (value : V x) (acquire release : Bool) : Option (V x × ReleaseAcquire Θ X V) :=
  if m.view thread x ≤ time ∧ (m.message x (time + 1)).isNone then
    (m.message x time).map fun msg ↦
      let own := join acquire (m.reached thread x (time + 1)) msg.view
      (msg.value, (m.put x (time + 1)
        ⟨value, join release (Function.update msg.view x (time + 1)) own⟩).setView thread own)
  else none

/-- Everything was written before anybody began. -/
def initial (values : (x : X) → V x) : ReleaseAcquire Θ X V where
  message x
    | 0 => some ⟨values x, fun _ ↦ 0⟩
    | _ + 1 => none
  view _ _ := 0

/-- The newest message of a location. -/
def Newest : Prop := ∀ later, time < later → m.message x later = none

variable {m thread x time} {msg : Message X (V x)} {m' : ReleaseAcquire Θ X V} {y : X}

omit [DecidableEq Θ] in
@[simp] theorem put_message_self (t : ℕ) :
    (m.put x time msg).message x t = if t = time then some msg else m.message x t := by
  simp [put, Function.update_apply]

omit [DecidableEq Θ] in
theorem put_message_of_ne (hne : y ≠ x) : (m.put x time msg).message y = m.message y :=
  Function.update_of_ne hne ..

omit [DecidableEq X] in
@[simp] theorem setView_message (view : X → ℕ) : (m.setView thread view).message = m.message := rfl

omit [DecidableEq X] in
@[simp] theorem setView_view_self (view : X → ℕ) : (m.setView thread view).view thread = view :=
  Function.update_self ..

omit [DecidableEq X] in
theorem setView_view_of_ne {other : Θ} (hne : other ≠ thread) (view : X → ℕ) :
    (m.setView thread view).view other = m.view other :=
  Function.update_of_ne hne ..

theorem read_eq_some_iff {acquire : Bool} {value : V x} :
    m.read thread x time acquire = some (value, m') ↔ m.view thread x ≤ time ∧
      ∃ msg, m.message x time = some msg ∧ msg.value = value ∧
        m' = m.setView thread (join acquire (m.reached thread x time) msg.view) := by
  unfold read
  split_ifs with htime
  · rw [Option.map_eq_some_iff]
    constructor
    · rintro ⟨msg, hmsg, heq⟩
      cases heq
      exact ⟨htime, msg, hmsg, rfl, rfl⟩
    · rintro ⟨-, msg, hmsg, rfl, rfl⟩
      exact ⟨msg, hmsg, rfl⟩
  · simp [htime]

theorem write_eq_some_iff {value : V x} {release : Bool} :
    m.write thread x time value release = some m' ↔
      (m.view thread x < time ∧ m.message x time = none) ∧
        m' = (m.put x time ⟨value, if release then m.reached thread x time
          else Function.update (fun _ ↦ 0) x time⟩).setView thread (m.reached thread x time) := by
  unfold write
  simp only [Option.isNone_iff_eq_none]
  by_cases htime : m.view thread x < time ∧ m.message x time = none
  · rw [if_pos htime]
    constructor
    · intro h
      cases h
      exact ⟨htime, rfl⟩
    · rintro ⟨-, rfl⟩
      rfl
  · simp [htime]

theorem exchange_eq_some_iff {value old : V x} {acquire release : Bool} :
    m.exchange thread x time value acquire release = some (old, m') ↔
      (m.view thread x ≤ time ∧ m.message x (time + 1) = none) ∧
        ∃ msg, m.message x time = some msg ∧ msg.value = old ∧
          m' = (m.put x (time + 1) ⟨value, join release (Function.update msg.view x (time + 1))
            (join acquire (m.reached thread x (time + 1)) msg.view)⟩).setView thread
              (join acquire (m.reached thread x (time + 1)) msg.view) := by
  unfold exchange
  simp only [Option.isNone_iff_eq_none]
  split_ifs with htime
  · rw [Option.map_eq_some_iff]
    constructor
    · rintro ⟨msg, hmsg, heq⟩
      cases heq
      exact ⟨htime, msg, hmsg, rfl, rfl⟩
    · rintro ⟨-, msg, hmsg, rfl, rfl⟩
      exact ⟨msg, hmsg, rfl⟩
  · simp [htime]

end ReleaseAcquire

end Stackfull.Lib
