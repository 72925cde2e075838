import Mathlib.Data.List.DropRight
import Mathlib.Data.List.Infix
import Stackfull.Lib.Refinement

/-!
# Bounded queues that lose items

A queue holds at most `capacity` items and may be closed, after which pushes have no effect. What a
push to a full queue does is a matter of its `Overflow`: the oldest item makes room, or the new one
is not accepted. `accepted` and `delivered` are history.

`LossyFifo.Sound` says what there is to know of the items: they are the last ones, at most
`capacity`, of those accepted after the last one that was delivered, and those delivered are among
the ones before in the same order (`LossyFifo.sound_of_produces`). With `dropNewest` nothing that was
accepted is lost. What was accepted was pushed before the queue was closed, and what is taken is what
is delivered (`LossyFifo.Traced`).
-/

set_option autoImplicit false
set_option relaxedAutoImplicit false
set_option linter.dupNamespace false

namespace Stackfull.Lib

universe u

/-- What makes room in a full queue. -/
inductive Overflow
  | dropOldest
  | dropNewest
  deriving DecidableEq

/-- The queue and its history. -/
structure LossyFifo (T : Type u) where
  items : List T
  closed : Bool
  accepted : List T
  delivered : List T

namespace LossyFifo

variable {T : Type u}

/-- A call. -/
inductive Action (T : Type u)
  | push (value : T)
  | close
  | pop

/-- What is seen of a call: also the item that it takes. -/
inductive Event (T : Type u)
  | push (value : T)
  | close
  | pop (item : Option T)

/-- The queue with nothing in it. -/
def empty (T : Type u) : LossyFifo T where
  items := []
  closed := false
  accepted := []
  delivered := []

/-- A push to a queue that is not closed. -/
def push (overflow : Overflow) (capacity : ℕ) (s : LossyFifo T) (value : T) : LossyFifo T :=
  match overflow with
  | .dropOldest =>
    { s with items := (s.items ++ [value]).rtake capacity, accepted := s.accepted ++ [value] }
  | .dropNewest =>
    if s.items.length < capacity then
      { s with items := s.items ++ [value], accepted := s.accepted ++ [value] }
    else s

/-- One call. -/
def step (overflow : Overflow) (capacity : ℕ) (s : LossyFifo T) : Action T → Option (LossyFifo T)
  | .push value => some (if s.closed then s else s.push overflow capacity value)
  | .close => some { s with closed := true }
  | .pop =>
    match s.items with
    | [] => none
    | value :: rest => some { s with items := rest, delivered := s.delivered ++ [value] }

/-- What is seen of a call. -/
def event (s : LossyFifo T) : Action T → Option (Event T)
  | .push value => some (.push value)
  | .close => some .close
  | .pop => some (.pop s.items.head?)

/-- The queue under every order of calls. -/
def system (T : Type u) (overflow : Overflow) (capacity : ℕ) :
    System (LossyFifo T) (Action T) where
  init s := s = empty T
  step := step overflow capacity

/-- The values pushed before the queue was closed. -/
def pushed : List (Event T) → List T
  | [] => []
  | .push value :: rest => value :: pushed rest
  | .close :: _ => []
  | .pop _ :: rest => pushed rest

/-- The items taken. -/
def popped : List (Event T) → List (Option T)
  | [] => []
  | .pop item :: rest => item :: popped rest
  | _ :: rest => popped rest

/-- The items are the last ones, at most `capacity`, of those accepted after the last delivery. -/
structure Sound (overflow : Overflow) (capacity : ℕ) (s : LossyFifo T) : Prop where
  ordered : ∃ passed fresh, s.accepted = passed ++ fresh ∧ s.items = fresh.rtake capacity ∧
    s.delivered.Sublist passed ∧ s.delivered.getLast? = passed.getLast?
  newest : overflow = .dropNewest → s.accepted = s.delivered ++ s.items

/-! ### The end of a list -/

theorem length_rtake_le (n : ℕ) (l : List T) : (l.rtake n).length ≤ n := by
  simp only [List.rtake, List.length_drop]
  omega

/-- A list that is short enough is its own end. -/
theorem rtake_of_length_le {n : ℕ} {l : List T} (h : l.length ≤ n) : l.rtake n = l := by
  simp [List.rtake, Nat.sub_eq_zero_of_le h]

/-- The end of the end is the end. -/
theorem rtake_rtake_append (n : ℕ) (l : List T) (value : T) :
    (l.rtake n ++ [value]).rtake n = (l ++ [value]).rtake n := by
  cases n with
  | zero => simp [List.rtake]
  | succ n =>
    rw [List.rtake_concat_succ, List.rtake_concat_succ]
    congr 1
    simp only [List.rtake, List.length_drop, List.drop_drop]
    congr 1
    omega

/-- The first item of an end is where something before it stops. -/
theorem rtake_eq_cons {n : ℕ} {l rest : List T} {value : T} (h : l.rtake n = value :: rest) :
    ∃ gone, l = gone ++ value :: rest :=
  ⟨l.take (l.length - n), by rw [← h, List.rtake, List.take_append_drop]⟩

/-! ### Runs -/

variable {overflow : Overflow} {capacity : ℕ} {s t : LossyFifo T} {events : List (Event T)}

theorem Sound.length_le (hs : Sound overflow capacity s) : s.items.length ≤ capacity := by
  obtain ⟨-, fresh, -, hitems, -, -⟩ := hs.ordered
  exact hitems ▸ length_rtake_le capacity fresh

/-- What is delivered and what waits was accepted in this order, each item once. -/
theorem Sound.sublist (hs : Sound overflow capacity s) :
    (s.delivered ++ s.items).Sublist s.accepted := by
  obtain ⟨passed, fresh, haccepted, hitems, hpassed, -⟩ := hs.ordered
  rw [haccepted, hitems]
  exact hpassed.append (List.drop_sublist _ _)

theorem sound_empty (overflow : Overflow) (capacity : ℕ) : Sound overflow capacity (empty T) :=
  ⟨⟨[], [], rfl, by simp [empty, List.rtake], .slnil, rfl⟩, fun _ ↦ rfl⟩

theorem sound_push (hs : Sound overflow capacity s) (value : T) :
    Sound overflow capacity (s.push overflow capacity value) := by
  obtain ⟨⟨passed, fresh, haccepted, hitems, hpassed, hlast⟩, hnewest⟩ := id hs
  cases overflow with
  | dropOldest =>
    refine ⟨⟨passed, fresh ++ [value], ?_, ?_, hpassed, hlast⟩, nofun⟩
    · simp [push, haccepted]
    · simp only [push, hitems]
      exact rtake_rtake_append capacity fresh value
  | dropNewest =>
    unfold push
    dsimp only
    split_ifs with hroom
    · refine ⟨⟨s.delivered, s.items ++ [value], ?_, ?_, List.Sublist.refl _, rfl⟩, fun _ ↦ ?_⟩
      · simp [hnewest rfl]
      · exact (rtake_of_length_le (by simpa using Nat.succ_le_of_lt hroom)).symm
      · simp [hnewest rfl]
    · exact hs

theorem sound_step {a : Action T} (hs : Sound overflow capacity s)
    (h : step overflow capacity s a = some t) : Sound overflow capacity t := by
  cases a with
  | push value =>
    simp only [step, Option.some.injEq] at h
    subst h
    split_ifs
    · exact hs
    · exact sound_push hs value
  | close =>
    cases h
    exact ⟨hs.ordered, hs.newest⟩
  | pop =>
    simp only [step] at h
    split at h
    case h_1 => cases h
    case h_2 value rest hcons =>
      cases h
      obtain ⟨⟨passed, fresh, haccepted, hitems, hpassed, hlast⟩, hnewest⟩ := hs
      obtain ⟨gone, hgone⟩ := rtake_eq_cons (hitems.symm.trans hcons)
      have hrest : rest.length ≤ capacity := by
        have hle := length_rtake_le capacity fresh
        rw [← hitems, hcons, List.length_cons] at hle
        omega
      refine ⟨⟨passed ++ gone ++ [value], rest, ?_, ?_, ?_, ?_⟩, fun hoverflow ↦ ?_⟩
      · simp [haccepted, hgone]
      · exact (rtake_of_length_le hrest).symm
      · exact (hpassed.trans (List.sublist_append_left _ _)).append (List.Sublist.refl _)
      · simp
      · simp [hnewest hoverflow, hcons]

theorem sound_of_produces
    (hs : (system T overflow capacity).Produces (fun _ _ ↦ True) event events s) :
    Sound overflow capacity s := by
  induction hs with
  | init h => exact h ▸ sound_empty overflow capacity
  | step _ _ hstep ih => exact sound_step ih hstep

/-- Nothing is accepted once the queue is closed, and what is in it leaves it by delivery alone. -/
theorem closed_step {a : Action T} (hclosed : s.closed = true)
    (h : step overflow capacity s a = some t) :
    t.closed = true ∧ t.accepted = s.accepted ∧ t.delivered ++ t.items = s.delivered ++ s.items := by
  cases a with
  | push value =>
    simp only [step, hclosed, if_true, Option.some.injEq] at h
    exact h ▸ ⟨hclosed, rfl, rfl⟩
  | close => exact Option.some.inj h ▸ ⟨rfl, rfl, rfl⟩
  | pop =>
    simp only [step] at h
    split at h
    case h_1 => cases h
    case h_2 value rest hcons =>
      cases h
      exact ⟨hclosed, rfl, by simp [hcons]⟩

/-- Before the queue is closed every push counts, and then none does. -/
theorem pushed_append (first second : List (Event T)) :
    (.close ∉ first → pushed (first ++ second) = pushed first ++ pushed second) ∧
      (.close ∈ first → pushed (first ++ second) = pushed first) := by
  induction first with
  | nil => simp [pushed]
  | cons e rest ih =>
    cases e with
    | push value => simpa [pushed] using ih
    | close => simp [pushed]
    | pop item => simpa [pushed] using ih

theorem popped_append (first second : List (Event T)) :
    popped (first ++ second) = popped first ++ popped second := by
  induction first with
  | nil => rfl
  | cons e rest ih => cases e <;> simp [popped, ih]

/-- What the calls that were seen say of the queue. -/
structure Traced (events : List (Event T)) (s : LossyFifo T) : Prop where
  closed : s.closed = true ↔ .close ∈ events
  accepted : s.accepted.Sublist (pushed events)
  delivered : popped events = s.delivered.map some

theorem accepted_push (overflow : Overflow) (capacity : ℕ) (s : LossyFifo T) (value : T) :
    (s.push overflow capacity value).accepted.Sublist (s.accepted ++ [value]) := by
  cases overflow with
  | dropOldest => exact List.Sublist.refl _
  | dropNewest =>
    simp only [push]
    split_ifs
    · exact List.Sublist.refl _
    · exact List.sublist_append_left _ _

/-- A push neither closes the queue nor delivers. -/
theorem push_frame (overflow : Overflow) (capacity : ℕ) (s : LossyFifo T) (value : T) :
    (s.push overflow capacity value).closed = s.closed ∧
      (s.push overflow capacity value).delivered = s.delivered := by
  cases overflow with
  | dropOldest => exact ⟨rfl, rfl⟩
  | dropNewest =>
    simp only [push]
    split_ifs <;> exact ⟨rfl, rfl⟩

theorem traced_step {a : Action T} (hs : Traced events s)
    (h : step overflow capacity s a = some t) : Traced (events ++ (event s a).toList) t := by
  obtain ⟨hclosed, haccepted, hdelivered⟩ := hs
  cases a with
  | push value =>
    simp only [step, Option.some.injEq] at h
    subst h
    have happend := pushed_append events [.push value]
    split_ifs with hs
    · exact ⟨by simpa [event] using hclosed, (happend.2 (hclosed.mp hs)).symm ▸ haccepted,
        by simpa [event, popped_append, popped] using hdelivered⟩
    · obtain ⟨hpush, hpush'⟩ := push_frame overflow capacity s value
      refine ⟨by simpa [event, hpush] using hclosed, ?_,
        by simpa [event, popped_append, popped, hpush'] using hdelivered⟩
      rw [show (event s (.push value)).toList = [.push value] from rfl,
        happend.1 (mt hclosed.mpr hs)]
      exact (accepted_push overflow capacity s value).trans
        (haccepted.append (List.Sublist.refl _))
  | close =>
    cases h
    refine ⟨by simp [event], ?_, by simpa [event, popped_append, popped] using hdelivered⟩
    by_cases hs : .close ∈ events
    · exact ((pushed_append events [.close]).2 hs).symm ▸ haccepted
    · refine ((pushed_append events [.close]).1 hs).symm ▸ ?_
      simpa [pushed] using haccepted
  | pop =>
    simp only [step] at h
    split at h
    case h_1 => cases h
    case h_2 value rest hcons =>
      cases h
      refine ⟨by simpa [event] using hclosed, ?_, by simp [event, popped_append, popped, hdelivered, hcons]⟩
      by_cases hs : .close ∈ events
      · exact ((pushed_append events [.pop s.items.head?]).2 hs).symm ▸ haccepted
      · refine ((pushed_append events [.pop s.items.head?]).1 hs).symm ▸ ?_
        simpa [pushed] using haccepted

theorem traced_of_produces
    (hs : (system T overflow capacity).Produces (fun _ _ ↦ True) event events s) :
    Traced events s := by
  induction hs with
  | init h =>
    cases h
    exact ⟨by simp [empty], .slnil, rfl⟩
  | step _ _ hstep ih => exact traced_step ih hstep

end LossyFifo

end Stackfull.Lib
